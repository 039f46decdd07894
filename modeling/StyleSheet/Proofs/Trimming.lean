import Mathlib
import StyleSheet.Text

/-!
# Trimmed texts

White space is removed from both ends of a text character by character, and a class of bytes is
removed byte by byte. Where the first and the last byte are ASCII and no white space, there is
nothing to remove (`trim_eq_self`); white space of ASCII before such a text is removed whole
(`trim_blank_append`). A class of bytes is removed as far as it goes: behind the delimiters of a
text it goes on in the text itself (`trimBytes_delimited`).
-/

namespace StyleSheet

/-- An ASCII character other than white space. -/
def Byte.isSolid (b : UInt8) : Bool := b < 0x80 && !(b == 0x20 || (0x09 ≤ b && b ≤ 0x0D))

namespace Text

variable {b : UInt8} {t x y : Text}

/-! ## White space -/

lemma solid_facts (b : UInt8) (h : Byte.isSolid b = true) :
    (b == 0x20 || (0x09 ≤ b && b ≤ 0x0D)) = false ∧
      ((0x80 ≤ b && b ≤ 0x8A) || b == 0xA8 || b == 0xA9 || b == 0xAF) = false := by
  simp only [Byte.isSolid, Bool.and_eq_true, decide_eq_true_eq, Bool.not_eq_true'] at h
  refine ⟨h.2, ?_⟩
  grind

lemma dropSpace?_of_isSolid (hb : Byte.isSolid b = true) (rest : Text) :
    dropSpace? (b :: rest) = none := by
  unfold dropSpace?
  split
  case h_7 heq =>
    obtain ⟨rfl, -⟩ := List.cons.inj heq
    rw [(solid_facts _ hb).1]
    rfl
  case h_8 heq => cases heq
  all_goals
    rename_i heq
    obtain ⟨rfl, -⟩ := List.cons.inj heq
    exact absurd hb (by decide)

lemma dropSpaceReversed?_of_isSolid (hb : Byte.isSolid b = true) (rest : Text) :
    dropSpaceReversed? (b :: rest) = none := by
  unfold dropSpaceReversed?
  split
  case h_5 heq =>
    obtain ⟨rfl, -⟩ := List.cons.inj heq
    rw [(solid_facts _ hb).2]
    rfl
  case h_7 heq =>
    obtain ⟨rfl, -⟩ := List.cons.inj heq
    rw [(solid_facts _ hb).1]
    rfl
  case h_8 heq => cases heq
  all_goals
    rename_i heq
    obtain ⟨rfl, -⟩ := List.cons.inj heq
    exact absurd hb (by decide)

lemma dropRepeatedly_of_none {drop? : Text → Option Text} (h : drop? t = none) (n : Nat) :
    dropRepeatedly drop? n t = t := by
  cases n with
  | zero => rfl
  | succ n => rw [dropRepeatedly, h]

lemma dropSpace?_of_isBlank (hb : Byte.isBlank b = true) (rest : Text) :
    dropSpace? (b :: rest) = some rest := by
  simp only [Byte.isBlank, Bool.or_eq_true, beq_iff_eq] at hb
  rcases hb with (((rfl | rfl) | rfl) | rfl) | rfl <;> rfl

lemma dropRepeatedly_blank_append (hx : ∀ b ∈ x, Byte.isBlank b = true) (n : Nat) :
    dropRepeatedly dropSpace? (x.length + n) (x ++ y) = dropRepeatedly dropSpace? n y := by
  induction x with
  | nil => rw [List.length_nil, Nat.zero_add, List.nil_append]
  | cons b x ih =>
      rw [List.forall_mem_cons] at hx
      rw [List.length_cons, Nat.add_right_comm, dropRepeatedly, List.cons_append,
        dropSpace?_of_isBlank hx.1]
      exact ih hx.2

/-- White space of ASCII before a text with solid ends is all that is removed. -/
lemma trim_blank_append (hx : ∀ b ∈ x, Byte.isBlank b = true)
    (hfirst : ∀ b ∈ t.head?, Byte.isSolid b = true)
    (hlast : ∀ b ∈ t.getLast?, Byte.isSolid b = true) : trim (x ++ t) = t := by
  have hstart : dropSpace? t = none := by
    cases t with
    | nil => rfl
    | cons b rest => exact dropSpace?_of_isSolid (hfirst b rfl) rest
  have hend : dropSpaceReversed? t.reverse = none := by
    rw [← List.head?_reverse] at hlast
    cases ht : t.reverse with
    | nil => rfl
    | cons b rest => exact dropSpaceReversed?_of_isSolid (hlast b (by rw [ht]; rfl)) rest
  rw [trim, List.length_append, dropRepeatedly_blank_append hx, dropRepeatedly_of_none hstart,
    dropRepeatedly_of_none hend, List.reverse_reverse]

/-- A text with solid ends has no white space around it. -/
lemma trim_eq_self (hfirst : ∀ b ∈ t.head?, Byte.isSolid b = true)
    (hlast : ∀ b ∈ t.getLast?, Byte.isSolid b = true) : t.trim = t :=
  trim_blank_append (x := []) (List.forall_mem_nil _) hfirst hlast

/-- No solid byte is removed from the end of a text. -/
lemma dropSpaceReversed?_eq_some (h : dropSpaceReversed? t = some y) :
    ∃ space, t = space ++ y ∧ ∀ b ∈ space, Byte.isSolid b = false := by
  have hascii : ∀ b, (b == 0x20 || (0x09 ≤ b && b ≤ 0x0D)) = true → Byte.isSolid b = false :=
    fun b hb => Bool.eq_false_iff.2 fun hsolid =>
      Bool.eq_false_iff.1 (solid_facts b hsolid).1 hb
  have hthird : ∀ b, ((0x80 ≤ b && b ≤ 0x8A) || b == 0xA8 || b == 0xA9 || b == 0xAF) = true →
      Byte.isSolid b = false :=
    fun b hb => Bool.eq_false_iff.2 fun hsolid =>
      Bool.eq_false_iff.1 (solid_facts b hsolid).2 hb
  unfold dropSpaceReversed? at h
  split at h
  case h_1 | h_2 =>
    exact ⟨[_, _], congrArg _ (congrArg _ (Option.some.inj h)), by simp [Byte.isSolid]⟩
  case h_3 | h_4 | h_6 =>
    exact ⟨[_, _, _], congrArg _ (congrArg _ (congrArg _ (Option.some.inj h))),
      by simp [Byte.isSolid]⟩
  case h_5 rest b _ =>
    split at h
    · rename_i hb
      obtain rfl := Option.some.inj h
      exact ⟨[b, 0x80, 0xE2], rfl, List.forall_mem_cons.2 ⟨hthird b hb, by simp [Byte.isSolid]⟩⟩
    · cases h
  case h_7 b rest _ _ _ _ _ _ =>
    split at h
    · rename_i hb
      obtain rfl := Option.some.inj h
      exact ⟨[b], rfl, List.forall_mem_singleton.2 (hascii b hb)⟩
    · cases h
  case h_8 => cases h

/-- A solid byte ends the white space that is removed. -/
lemma exists_dropRepeatedly (hx : ∀ b ∈ x, Byte.isSolid b = true) (n : Nat) (l : Text) :
    ∃ l', dropRepeatedly dropSpaceReversed? n (l ++ x) = l' ++ x := by
  induction n generalizing l with
  | zero => exact ⟨l, rfl⟩
  | succ n ih =>
      rw [dropRepeatedly]
      split
      · rename_i rest hrest
        obtain ⟨space, heq, hspace⟩ := dropSpaceReversed?_eq_some hrest
        obtain ⟨more, rfl, hmore⟩ | ⟨more, -, rfl⟩ := List.append_eq_append_iff.1 heq
        · cases more with
          | nil => exact hmore ▸ ih []
          | cons b more =>
              have hsolid := hx b (hmore ▸ List.mem_cons_self)
              rw [hspace b (List.mem_append_right _ List.mem_cons_self)] at hsolid
              cases hsolid
        · exact ih more
      · exact ⟨l, rfl⟩

/-- Solid bytes at the start of a text stay there. -/
lemma prefix_trim (hx : ∀ b ∈ x, Byte.isSolid b = true) (hne : x ≠ []) (t : Text) :
    x <+: trim (x ++ t) := by
  have hstart : dropSpace? (x ++ t) = none := by
    obtain ⟨b, x, rfl⟩ := List.exists_cons_of_ne_nil hne
    exact dropSpace?_of_isSolid (hx b List.mem_cons_self) _
  obtain ⟨l, hl⟩ :=
    exists_dropRepeatedly (x := x.reverse) (by simpa using hx) (x ++ t).length t.reverse
  rw [trim, dropRepeatedly_of_none hstart, List.reverse_append, hl, List.reverse_append,
    List.reverse_reverse]
  exact List.prefix_append _ _

lemma length_dropRepeatedly_le {drop? : Text → Option Text}
    (h : ∀ t y, drop? t = some y → y.length ≤ t.length) (n : Nat) (t : Text) :
    (dropRepeatedly drop? n t).length ≤ t.length := by
  induction n generalizing t with
  | zero => exact le_refl _
  | succ n ih =>
      rw [dropRepeatedly]
      split
      · rename_i rest hrest
        exact (ih rest).trans (h t rest hrest)
      · exact le_refl _

lemma length_trim_le (t : Text) : t.trim.length ≤ t.length := by
  have hstart : ∀ t y, dropSpace? t = some y → y.length ≤ t.length := by
    intro t y h
    unfold dropSpace? at h
    grind
  have hend : ∀ t y, dropSpaceReversed? t = some y → y.length ≤ t.length := by
    intro t y h
    obtain ⟨space, rfl, -⟩ := dropSpaceReversed?_eq_some h
    rw [List.length_append]
    exact Nat.le_add_left _ _
  rw [trim, List.length_reverse]
  refine (length_dropRepeatedly_le hend _ _).trans ?_
  rw [List.length_reverse]
  exact length_dropRepeatedly_le hstart _ _

/-! ## Classes of bytes -/

variable {p : UInt8 → Bool}

lemma trimBytes_eq (t : Text) : t.trimBytes p = (t.dropWhile p).rdropWhile p := rfl

/-- Nothing is removed if and only if neither the first nor the last byte is of the class. -/
lemma trimBytes_eq_self_iff :
    t.trimBytes p = t ↔ (∀ b ∈ t.head?, p b = false) ∧ ∀ b ∈ t.getLast?, p b = false := by
  have hfirst : t.dropWhile p = t ↔ ∀ b ∈ t.head?, p b = false := by
    rw [List.dropWhile_eq_self_iff]
    cases t <;> simp
  have hlast : t.rdropWhile p = t ↔ ∀ b ∈ t.getLast?, p b = false := by
    rw [List.rdropWhile_eq_self_iff]
    constructor
    · intro h b hb
      obtain ⟨hne, rfl⟩ := List.mem_getLast?_eq_getLast hb
      simpa using h hne
    · intro h hne
      simpa using h _ (List.getLast?_eq_some_getLast hne)
  rw [trimBytes_eq, ← hfirst, ← hlast]
  constructor
  · intro h
    -- What is left of the text is as long as the text, so the first step has removed nothing
    -- either.
    have hle : t.length ≤ (t.dropWhile p).length :=
      calc t.length = ((t.dropWhile p).rdropWhile p).length := by rw [h]
        _ ≤ (t.dropWhile p).length := (List.rdropWhile_prefix p _).length_le
    have hdrop : t.dropWhile p = t := (List.dropWhile_suffix p).eq_of_length_le hle
    rw [hdrop] at h
    exact ⟨hdrop, h⟩
  · rintro ⟨hdrop, h⟩
    rw [hdrop, h]

/-- What is between two bytes of the class loses its own ends as well. -/
lemma trimBytes_delimited {a : UInt8} (ha : p a = true) (hb : p b = true) (t : Text) :
    trimBytes p (a :: (t ++ [b])) = t.trimBytes p := by
  rw [trimBytes_eq, trimBytes_eq, List.dropWhile_cons_of_pos ha, List.dropWhile_append]
  split
  · rename_i hall
    rw [List.isEmpty_iff.1 hall, List.dropWhile_cons_of_pos hb, List.dropWhile_nil]
  · rw [List.rdropWhile_concat_pos _ _ _ hb]

end Text

end StyleSheet
