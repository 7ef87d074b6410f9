import Backtracie.Concatenation
import Backtracie.Rendering

/-!
# What unclean growth costs

Where a growable builder has to grow in the middle of a C string, the beginning of the string that
was written already stays in front of it. This is all that can happen to the text, and there is a
bound to it: every piece is there, in its place, behind at most twice as many bytes of its own
beginnings (`HeldFor`). So nothing is lost, the text is at most three times as long as it should be,
and the buffer, if it grew at all, is at most twice as large as the text (`growth_bounded`).
-/

namespace Backtracie

open CMem Traced Doubling

/-! ## The text of a builder -/

/-- Beginnings of a string, together at most twice as long as it. -/
structure Beginnings (cat dup : Bytes) : Prop where
  cuts : ∃ ns : List ℕ, dup = ns.flatMap (cat.take ·)
  length : dup.length ≤ 2 * cat.length

/-- What a builder holds for a piece: a Ruby string as it is, a C string behind beginnings of it. -/
inductive HeldFor : Piece → Bytes → Prop
  | append {cat dup : Bytes} (h : Beginnings cat dup) : HeldFor (.append cat) (dup ++ cat)
  | appendValue (val : Bytes) : HeldFor (.appendValue (some val)) val

variable {cat dup left part : Bytes} {p : Piece} {pieces : List Piece} {parts : List Bytes}
  {b o : ℕ}

theorem beginnings_nil : Beginnings cat [] := ⟨⟨[], rfl⟩, Nat.zero_le _⟩

/-- Another beginning behind the others. -/
theorem Beginnings.take (h : Beginnings cat dup) (n : ℕ)
    (hlen : (dup ++ cat.take n).length ≤ 2 * cat.length) : Beginnings cat (dup ++ cat.take n) := by
  obtain ⟨ns, rfl⟩ := h.cuts
  exact ⟨⟨ns ++ [n], by rw [List.flatMap_append, List.flatMap_singleton]⟩, hlen⟩

theorem Beginnings.nulFree (h : Beginnings cat dup) (hcat : NulFree cat) : NulFree dup := by
  obtain ⟨ns, rfl⟩ := h.cuts
  intro hmem
  obtain ⟨n, -, hn⟩ := List.mem_flatMap.1 hmem
  exact hcat (List.mem_of_mem_take hn)

namespace HeldFor

theorem sublist (h : HeldFor p part) : p.text.Sublist part := by
  cases h with
  | append _ => exact List.sublist_append_right _ _
  | appendValue => exact List.Sublist.refl part

theorem length_le (h : HeldFor p part) : part.length ≤ 3 * p.text.length := by
  cases h with
  | append h =>
    have hlen := h.length
    rw [List.length_append, Piece.text]
    omega
  | appendValue =>
    show part.length ≤ 3 * part.length
    omega

/-- A NUL comes from a Ruby string, of which nothing is repeated. -/
theorem nulFree_or (h : HeldFor p part) (hp : p.Proper) :
    NulFree p.text ∧ NulFree part ∨ ¬NulFree p.text ∧ part = p.text := by
  cases h with
  | append h => exact .inl ⟨hp, nulFree_append.2 ⟨h.nulFree hp, hp⟩⟩
  | appendValue =>
    by_cases hnul : NulFree part
    · exact .inl ⟨hnul, hnul⟩
    · exact .inr ⟨hnul, rfl⟩

end HeldFor

theorem cstr_append_of_nulFree {s t : Bytes} (h : NulFree s) : cstr (s ++ t) = s ++ cstr t := by
  have hself := cstr_of_nulFree h
  rw [cstr] at hself
  rw [cstr, List.takeWhile_append, hself, if_pos rfl, cstr]

theorem cstr_append_of_not_nulFree {s t : Bytes} (h : ¬NulFree s) : cstr (s ++ t) = cstr s := by
  rw [cstr, List.takeWhile_append, if_neg, cstr]
  intro hlen
  exact h (cstr_eq_self_iff.1 ((List.takeWhile_prefix _).eq_of_length hlen))

/-- **Nothing is lost**, and the text is at most three times as long as it should be. -/
theorem heldFor_text (h : List.Forall₂ HeldFor pieces parts) :
    (textOf pieces).Sublist parts.flatten ∧
      parts.flatten.length ≤ 3 * (textOf pieces).length := by
  induction h with
  | nil => exact ⟨List.Sublist.refl _, Nat.zero_le _⟩
  | cons hp _ ih =>
    obtain ⟨hsub, hlen⟩ := ih
    have hle := hp.length_le
    rw [textOf_cons, List.flatten_cons, List.length_append, List.length_append]
    exact ⟨hp.sublist.append hsub, by omega⟩

/-- So it is up to the first NUL. -/
theorem heldFor_cstr (h : List.Forall₂ HeldFor pieces parts) (hproper : ∀ p ∈ pieces, p.Proper) :
    (cstr (textOf pieces)).Sublist (cstr parts.flatten) ∧
      (cstr parts.flatten).length ≤ 3 * (cstr (textOf pieces)).length := by
  induction h with
  | nil => exact ⟨List.Sublist.refl _, Nat.zero_le _⟩
  | @cons p part ps rest hp _ ih =>
    obtain ⟨hsub, hlen⟩ := ih fun q hq => hproper q (List.mem_cons_of_mem p hq)
    rw [textOf_cons, List.flatten_cons]
    rcases hp.nulFree_or (hproper p List.mem_cons_self) with ⟨hfree, hfree'⟩ | ⟨hnul, rfl⟩
    · rw [cstr_append_of_nulFree hfree, cstr_append_of_nulFree hfree', List.length_append,
        List.length_append]
      have hle := hp.length_le
      exact ⟨hp.sublist.append hsub, by omega⟩
    · rw [cstr_append_of_not_nulFree hnul, cstr_append_of_not_nulFree hnul]
      exact ⟨List.Sublist.refl _, by omega⟩

/-! ## The appends -/

/-- A round that is cut off fills the buffer with the beginning of the piece. What is there already
was left by a round before, in a buffer half as large. -/
theorem Beginnings.leftover (h : Beginnings cat left) (hlt : o + left.length < b)
    (hfull : b ≤ o + left.length + cat.length)
    (hstart : left = [] ∨ b = 2 * (o + left.length + 1)) :
    Beginnings cat (leftover b o left cat) := by
  have hlen := length_leftover hlt hfull
  refine h.take _ ?_
  rw [← Backtracie.leftover]
  rcases hstart with rfl | hstart
  · rw [List.length_nil] at hfull
    omega
  · omega

/-- **Appending a C string** leaves beginnings of it in front. A buffer that grew is at most twice
as large as the text. -/
theorem append_bounded (r : ℕ) (hcat : NulFree cat) (hleft : Beginnings cat left)
    (hstart : left = [] ∨ b = 2 * (o + left.length + 1)) (hlt : o + left.length < b)
    (hr : cat.length ≤ b * 2 ^ r) :
    ∃ dup b', Beginnings cat dup ∧
      (b' = b ∧ dup = left ∨ b' ≤ 2 * (o + (dup ++ cat).length)) ∧
      Adds (fun junk => strbuilderAppendRetry junk cat (r + 2)) left b o (dup ++ cat) b' := by
  induction r generalizing b left with
  | zero =>
    by_cases hfit : o + left.length + cat.length < b
    · exact ⟨left, b, hleft, .inl ⟨rfl, rfl⟩, appendRetry_room hcat hfit⟩
    · have hfull := Nat.not_lt.1 hfit
      have hlen := length_leftover hlt hfull
      rw [pow_zero, mul_one] at hr
      refine ⟨leftover b o left cat, b * 2, hleft.leftover hlt hfull hstart, .inr ?_,
        appendRetry_full hcat hfull (appendRetry_room hcat (by omega))⟩
      rw [List.length_append]
      omega
  | succ r ih =>
    by_cases hfit : o + left.length + cat.length < b
    · exact ⟨left, b, hleft, .inl ⟨rfl, rfl⟩, appendRetry_room hcat hfit⟩
    · have hfull := Nat.not_lt.1 hfit
      have hlen := length_leftover hlt hfull
      have hr' : cat.length ≤ b * 2 * 2 ^ r := by rwa [mul_assoc, ← pow_succ']
      obtain ⟨dup, b', hdup, hsize, hadds⟩ := ih (hleft.leftover hlt hfull hstart)
        (.inr (by omega)) (by omega) hr'
      refine ⟨dup, b', hdup, .inr ?_, appendRetry_full hcat hfull hadds⟩
      rcases hsize with ⟨rfl, rfl⟩ | hsize
      · rw [List.length_append]
        omega
      · exact hsize

/-- **One piece.** -/
theorem appendPiece_bounded (hp : p.Proper) (hlt : o < b) :
    ∃ part b', HeldFor p part ∧ (b' = b ∨ b' ≤ 2 * (o + part.length)) ∧
      Adds (fun junk str => strbuilderAppendPiece junk str p) [] b o part b' := by
  cases p with
  | append cat =>
    have hr : cat.length ≤ b * 2 ^ cat.length :=
      (Nat.le_add_left _ _).trans (lt_mul_two_pow hlt).le
    obtain ⟨dup, b', hdup, hsize, hadds⟩ :=
      append_bounded cat.length hp beginnings_nil (.inl rfl) hlt hr
    exact ⟨dup ++ cat, b', .append hdup, hsize.imp_left And.left, hadds⟩
  | appendValue val =>
    obtain ⟨s, rfl⟩ := Option.isSome_iff_exists.1 hp
    have hr : o + s.length < b * 2 ^ (s.length + 1) :=
      (Nat.add_le_add_left (Nat.le_succ _) _).trans_lt (lt_mul_two_pow hlt)
    have hb := Nat.zero_lt_of_lt hlt
    refine ⟨s, _, .appendValue s, ?_, appendValue_adds (s.length + 1) hb hr⟩
    rcases Nat.lt_or_ge (o + s.length) b with hfit | hfull
    · exact .inl (doubled_of_lt hfit)
    · exact .inr (doubled_le hb hfull)

/-- **Every sequence of pieces.** -/
theorem appendPieces_bounded (hproper : ∀ p ∈ pieces, p.Proper) (hlt : o < b) :
    ∃ parts b', List.Forall₂ HeldFor pieces parts ∧
      (b' = b ∨ b' ≤ 2 * (o + parts.flatten.length)) ∧
      Adds (fun junk str => strbuilderAppendPieces junk str pieces) [] b o parts.flatten b' := by
  induction pieces generalizing o b with
  | nil => exact ⟨[], b, .nil, .inl rfl, Adds.nil hlt⟩
  | cons p ps ih =>
    obtain ⟨part, b₁, hpart, hsize, hp⟩ := appendPiece_bounded (hproper p List.mem_cons_self) hlt
    obtain ⟨parts, b', hparts, hsize', hps⟩ :=
      ih (fun q hq => hproper q (List.mem_cons_of_mem p hq)) hp.room
    refine ⟨part :: parts, b', .cons hpart hparts, ?_, hp.bind hps⟩
    rw [List.flatten_cons, List.length_append]
    omega

/-- The appends to a fresh builder. -/
theorem growPieces_bounded {size : ℕ} (hsize : 1 ≤ size) (hproper : ∀ p ∈ pieces, p.Proper) :
    ∃ parts, List.Forall₂ HeldFor pieces parts ∧ ∀ junk, ∃ tr str,
      (growPieces junk size pieces).Yields tr str ∧ Grows parts.flatten str ∧
      str.originalBufsize ≤ max size (2 * parts.flatten.length) := by
  obtain ⟨parts, b', hparts, hbound, hadds⟩ := appendPieces_bounded (o := 0) hproper hsize
  refine ⟨parts, hparts, fun junk => ?_⟩
  obtain ⟨tr₀, str₀, hinit, -, h₀, hbuf⟩ := grows_init junk hsize
  obtain ⟨tr, str, hy, -, hg, hb⟩ := hadds.run junk [] str₀ rfl (retries_nil_iff.2 h₀) hbuf
  refine ⟨_, str, hinit.bind hy, hg, ?_⟩
  rw [Nat.zero_add] at hbound
  omega

/-! ## Names -/

/-- The name of a frame, as a Ruby string. -/
theorem frameNameRbstr_bounded {rt : Runtime} {frame : ControlFrame} {depth : ℕ}
    (h : frame.Lawful rt.toVM) (hname : (frameReferenceName rt depth frame).result = .ok ())
    (hproper : ∀ p ∈ (frameReferenceName rt depth frame).trace, p.Proper) (junk : ℕ → UInt8)
    (minLoc : MinimalLocation) :
    ∃ s, (frameNameRbstr junk rt depth minLoc (locationOfFrame rt frame)).result = .ok s ∧
      (nameTitle rt depth frame).Sublist s.bytes ∧
      s.bytes.length ≤ 3 * (nameTitle rt depth frame).length := by
  obtain ⟨parts, hparts, hrun⟩ := growPieces_bounded initialBufsize_pos hproper
  obtain ⟨tr, str, hy, hg, -⟩ := hrun junk
  rw [← frameName_eq h.toProper minLoc] at hname hy
  refine ⟨rbStrNew2 parts.flatten, ?_, heldFor_cstr hparts hproper⟩
  rw [frameNameRbstr_of_ok junk hname, hy, mk_ok_bind, hg.finishValue]
  rfl

/-- **What unclean growth costs.** A growable builder holds every piece in its place, a Ruby string
as it is and a C string behind beginnings of it; the text is at most three times as long as the
pieces, and a buffer that grew at most twice as large as the text. In the name of every captured
frame, as a Ruby string, nothing of the name up to its first NUL is lost, and at most twice as much
is put in: the Ruby string is made of the text up to that byte. -/
theorem growth_bounded :
    (∀ (size : ℕ) (pieces : List Piece), 1 ≤ size → (∀ p ∈ pieces, p.Proper) →
      ∃ parts, List.Forall₂ HeldFor pieces parts ∧
        parts.flatten.length ≤ 3 * (textOf pieces).length ∧
        ∀ junk, ∃ tr str, (growPieces junk size pieces).Yields tr str ∧
          Grows parts.flatten str ∧ str.originalBufsize ≤ max size (2 * parts.flatten.length)) ∧
    ∀ (rt : Runtime) (frame : ControlFrame), rt.toVM.Lawful → frame.Lawful rt.toVM →
      isValidFrame rt.toVM frame = .ok true →
      ∃ N, ∀ depth, N ≤ depth → ∀ junk minLoc, ∃ s,
        (frameNameRbstr junk rt depth minLoc (locationOfFrame rt frame)).result = .ok s ∧
        (nameTitle rt depth frame).Sublist s.bytes ∧
        s.bytes.length ≤ 3 * (nameTitle rt depth frame).length := by
  refine ⟨fun size pieces hsize hproper => ?_, fun rt frame hrt hframe hvalid => ?_⟩
  · obtain ⟨parts, hparts, hrun⟩ := growPieces_bounded hsize hproper
    exact ⟨parts, hparts, (heldFor_text hparts).2, hrun⟩
  · obtain ⟨N, hN⟩ := @names_written rt [frame] hrt fun f hf => by
      rw [List.mem_singleton.1 hf]
      exact ⟨hframe, hvalid⟩
    refine ⟨N, fun depth hdepth junk minLoc => ?_⟩
    obtain ⟨hname, hproper⟩ := hN depth hdepth frame (List.mem_singleton_self frame)
    exact frameNameRbstr_bounded hframe hname hproper junk minLoc

/-- A name of 250 bytes and `{block}`, where five bytes are written twice, and a name that
fits. -/
theorem growth_bounded_longNameInBlock :
    (∃ parts, List.Forall₂ HeldFor longNameInBlock parts ∧ ∃ tr str,
      (growPieces (fun _ => 0) 256 longNameInBlock).Yields tr str ∧ Grows parts.flatten str) ∧
    ∃ depth s, (frameNameRbstr (fun _ => 0) (bootRuntime (bootThread false [rubyFrame 80])) depth
        MinimalLocation.zeroed
        (locationOfFrame (bootRuntime (bootThread false [rubyFrame 80])) (rubyFrame 80))).result =
          .ok s ∧
      (nameTitle (bootRuntime (bootThread false [rubyFrame 80])) depth (rubyFrame 80)).Sublist
        s.bytes := by
  constructor
  · obtain ⟨parts, hparts, -, hrun⟩ :=
      growth_bounded.1 256 longNameInBlock (by decide) longNameInBlock_proper
    obtain ⟨tr, str, hy, hg, -⟩ := hrun fun _ => 0
    exact ⟨parts, hparts, tr, str, hy, hg⟩
  · obtain ⟨N, hN⟩ := growth_bounded.2 (bootRuntime (bootThread false [rubyFrame 80]))
      (rubyFrame 80) (bootVM_lawful _) (rubyFrame_lawful _ 80) rfl
    obtain ⟨s, hs, hsub, -⟩ := hN N le_rfl (fun _ => 0) MinimalLocation.zeroed
    exact ⟨N, s, hs, hsub⟩

end Backtracie
