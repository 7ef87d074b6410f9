import Backtracie.Lawful

/-!
# Names as Ruby strings

A growable builder should hold the concatenation of what was appended, and a name read with
`backtracie_frame_name_rbstr` should be the one that `backtracie_frame_name_cstr` leaves in a large
buffer. Both are so exactly when the growth of the buffer is clean (`growable_faithful_iff`): when
`strlcat` runs out of room in the middle of a literal, the part it has written stays and the literal
is appended behind it once more (`growable_faithful_fails`).
-/

namespace Backtracie

open CMem Traced Doubling

variable (junk : ℕ → UInt8)

/-- The two functions for the name of a frame agree: for all buffers that are large enough, the
text left there, and the length returned, are those of the Ruby string. -/
def NamesAgree (rt : Runtime) (depth : ℕ) (minLoc : MinimalLocation) (loc : RawLocation) : Prop :=
  ∃ s, (frameNameRbstr junk rt depth minLoc loc).result = .ok s ∧
    ∃ n₀, ∀ buf : Bytes, n₀ ≤ buf.length → ∃ buf',
      (frameNameCstr junk rt depth minLoc loc buf).result = .ok (s.bytes.length, buf') ∧
        cstr buf' = s.bytes

theorem LeavesText.cstr_eq {text : Bytes} {run : Comp (ℕ × Bytes)} (h : LeavesText text run)
    (hfree : NulFree text) : ∃ buf, run.result = .ok (text.length, buf) ∧ cstr buf = text := by
  obtain ⟨buf, hres, htext⟩ := h
  refine ⟨buf, hres, ?_⟩
  rw [← List.take_append_drop (text.length + 1) buf, htext, List.append_assoc]
  exact cstr_append_nul hfree _

theorem namesAgree_iff {rt : Runtime} {depth : ℕ} {minLoc : MinimalLocation} {loc : RawLocation}
    (hok : (frameName rt depth minLoc loc).result = .ok ())
    (hproper : ∀ p ∈ (frameName rt depth minLoc loc).trace, p.Proper)
    (hfree : NulFree (textOf (frameName rt depth minLoc loc).trace)) :
    NamesAgree junk rt depth minLoc loc ↔
      CleanGrowth initialBufsize (frameName rt depth minLoc loc).trace := by
  obtain ⟨text, hfree', hiff, hrun⟩ := growPieces_iff initialBufsize_pos hproper
  obtain ⟨tr, str, hy, -, hg⟩ := hrun junk
  have hrbstr : (frameNameRbstr junk rt depth minLoc loc).result =
      .ok { bytes := text, encoding := encAscii8bit } := by
    rw [frameNameRbstr_of_ok junk hok, hy, mk_ok_bind, hg.finishValue, rbStrNew2,
      cstr_of_nulFree (hfree' hfree)]
    rfl
  have hcstr : ∀ buf : Bytes, (textOf (frameName rt depth minLoc loc).trace).length < buf.length →
      ∃ buf', (frameNameCstr junk rt depth minLoc loc buf).result =
        .ok ((textOf (frameName rt depth minLoc loc).trace).length, buf') ∧
        cstr buf' = textOf (frameName rt depth minLoc loc).trace := by
    intro buf hbuf
    rw [frameNameCstr, cstrQuery_of_ok junk hok]
    exact (writePieces_leavesText junk hproper hbuf).cstr_eq hfree
  rw [← hiff]
  constructor
  · rintro ⟨s, hs, n₀, hagree⟩
    rw [hrbstr] at hs
    obtain rfl := Except.ok.inj hs
    -- any buffer beyond `n₀` that also has room for the text
    let buf : Bytes :=
      List.replicate (n₀ + (textOf (frameName rt depth minLoc loc).trace).length + 1) 0
    have hlen : buf.length = n₀ + (textOf (frameName rt depth minLoc loc).trace).length + 1 :=
      List.length_replicate
    obtain ⟨b₁, hres₁, hb₁⟩ := hagree buf (by omega)
    obtain ⟨b₂, hres₂, hb₂⟩ := hcstr buf (by omega)
    rw [hres₂] at hres₁
    obtain ⟨-, rfl⟩ := Prod.mk.inj (Except.ok.inj hres₁)
    exact hb₁.symm.trans hb₂
  · rintro rfl
    exact ⟨_, hrbstr, _, fun buf hbuf => hcstr buf hbuf⟩

/-- **A growable builder is a faithful concatenation**, and the two functions for the name of a
frame agree, exactly when the growth of the buffer is clean: every literal fits behind the text
before it in the buffer as it is, or that text and its NUL fill the buffer and the literal fits
after one doubling. -/
theorem growable_faithful_iff :
    (∀ (size : ℕ) (pieces : List Piece), 1 ≤ size → (∀ p ∈ pieces, p.Proper) →
      NulFree (textOf pieces) →
      (FaithfulConcat (textOf pieces) (growPieces junk size pieces) ↔ CleanGrowth size pieces)) ∧
    ∀ (rt : Runtime) (depth : ℕ) (minLoc : MinimalLocation) (loc : RawLocation),
      (frameName rt depth minLoc loc).result = .ok () →
      (∀ p ∈ (frameName rt depth minLoc loc).trace, p.Proper) →
      NulFree (textOf (frameName rt depth minLoc loc).trace) →
      (NamesAgree junk rt depth minLoc loc ↔
        CleanGrowth initialBufsize (frameName rt depth minLoc loc).trace) :=
  ⟨fun _ _ hsize hproper hfree => faithful_iff_cleanGrowth junk hsize hproper hfree,
    fun _ _ _ _ hok hproper hfree => namesAgree_iff junk hok hproper hfree⟩

/-- The appends for a block in a method with a name of 250 bytes. -/
def longNameInBlock : List Piece :=
  [.appendValue (some (List.replicate 250 97)), .append (lit "{block}")]

theorem longNameInBlock_proper : ∀ p ∈ longNameInBlock, p.Proper := by
  simp only [longNameInBlock, List.mem_cons, List.not_mem_nil, or_false]
  rintro p (rfl | rfl)
  · rfl
  · show NulFree (lit "{block}")
    decide

theorem longNameInBlock_nulFree : NulFree (textOf longNameInBlock) := by
  simp only [longNameInBlock, textOf_cons, textOf_nil, List.append_nil, Piece.text,
    Option.getD_some, nulFree_append]
  refine ⟨fun h0 => ?_, by decide⟩
  exact absurd (List.eq_of_mem_replicate h0) (by decide)

/-- The name of a method of `Object`. -/
def shortName : List Piece :=
  [.appendValue (some (lit "Object")), .append (lit "#"), .appendValue (some (lit "m"))]

/-- Those appends, and the name of a frame. -/
theorem growable_faithful_iff_longNameInBlock :
    (FaithfulConcat (textOf longNameInBlock) (growPieces (fun _ => 0) 256 longNameInBlock) ↔
      CleanGrowth 256 longNameInBlock) ∧
    (NamesAgree (fun _ => 0) (bootRuntime (bootThread false [rubyFrame 80])) 1
        MinimalLocation.zeroed
        (locationOfFrame (bootRuntime (bootThread false [rubyFrame 80])) (rubyFrame 80)) ↔
      CleanGrowth initialBufsize shortName) := by
  have hproper : ∀ p ∈ shortName, p.Proper := by
    simp only [shortName, List.mem_cons, List.not_mem_nil, or_false]
    rintro p (rfl | rfl | rfl)
    · rfl
    · show NulFree (lit "#")
      decide
    · rfl
  constructor
  · exact (growable_faithful_iff (fun _ => 0)).1 256 longNameInBlock initialBufsize_pos
      longNameInBlock_proper longNameInBlock_nulFree
  · exact (growable_faithful_iff (fun _ => 0)).2 _ 1 MinimalLocation.zeroed _ rfl hproper
      (show NulFree (textOf shortName) by decide)

/-- **A name of 250 bytes, then `{block}`**, in the buffer of 256 bytes that every caller starts
with: the literal has room for five of its seven bytes, and they are written twice. -/
theorem growable_faithful_fails :
    ¬FaithfulConcat (textOf longNameInBlock)
      (growPieces (fun _ => 0) initialBufsize longNameInBlock) := by
  rw [faithful_iff_cleanGrowth _ initialBufsize_pos longNameInBlock_proper longNameInBlock_nulFree]
  intro hclean
  have h := hclean [.appendValue (some (List.replicate 250 97))] (lit "{block}") [] rfl
  have hbefore : (textOf [.appendValue (some (List.replicate 250 97))]).length = 250 := by
    rw [textOf_cons, textOf_nil, List.append_nil]
    exact List.length_replicate
  have hlit : (lit "{block}").length = 7 := by decide
  rw [hbefore, hlit, doubled_of_lt (show 250 < initialBufsize by decide)] at h
  revert h
  decide

end Backtracie
