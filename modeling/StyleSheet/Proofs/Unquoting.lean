import Mathlib
import StyleSheet.Construct.Resource
import StyleSheet.Proofs.LexicalNodes

/-!
# What is left of quoted texts

The address of another file and the name of an animation are found in the text of a token. A string
loses its quotes, but with them all quotes that stand next to them in its body, of either kind;
white space between the quotes stays. A `url(...)` is taken apart only if its name is in lower case,
and then loses white space and again the quotes at the ends. So the body comes out as it is written
exactly if it has no quote at its ends.
-/

namespace StyleSheet

open Token

/-! ## Texts -/

/-- Neither the first nor the last byte is a quote. -/
def Text.IsBare (t : Text) : Prop :=
  (∀ b ∈ t.head?, Byte.isQuote b = false) ∧ ∀ b ∈ t.getLast?, Byte.isQuote b = false

/-- What is made of a string: its body without the quotes at its ends, which is the body itself if
there are none. -/
def IsUnquoted (t a : Text) : Prop :=
  ∃ (q : UInt8) (body : Text), Byte.isQuote q = true ∧ t = q :: (body ++ [q]) ∧
    a = body.trimBytes Byte.isQuote ∧
    (a = body ↔ body.IsBare)

/-- What is made of a `url(...)`: if the name is in lower case, what is between the parentheses
without white space around it and without the quotes at its ends, and the whole text otherwise. -/
def IsUnwrapped (t a : Text) : Prop :=
  ∃ name body : Text, name.isWord "url" = true ∧ t = name ++ byte '(' :: (body ++ [byte ')']) ∧
    (a = if name = Text.ofString "url" then body.trim.trimBytes Byte.isQuote else t) ∧
    (a = body.trim ↔ name = Text.ofString "url" ∧ body.trim.IsBare)

/-- What is made of a token with an address. -/
def IsAddressOf (l : Leaf) (a : Text) : Prop :=
  (l.kind = .string → IsUnquoted l.text a) ∧ (l.kind = .url → IsUnwrapped l.text a)

lemma isUnquoted_trimBytes {t : Text} (h : IsTextOf .string t) :
    IsUnquoted t (t.trimBytes Byte.isQuote) := by
  obtain ⟨q, body, hq, rfl⟩ := h
  exact ⟨q, body, hq, rfl, Text.trimBytes_delimited hq hq body,
    by rw [Text.trimBytes_delimited hq hq]; exact Text.trimBytes_eq_self_iff⟩

/-- There is no white space around a string. -/
lemma trim_of_string {t : Text} (h : IsTextOf .string t) : t.trim = t := by
  have hsolid : ∀ b, Byte.isQuote b = true → Byte.isSolid b = true := by
    intro b hb
    rcases Bool.or_eq_true_iff.1 hb with hb | hb <;> rw [beq_iff_eq.1 hb] <;> rfl
  obtain ⟨q, body, hq, rfl⟩ := h
  refine Text.trim_eq_self ?_ ?_
  · rintro _ ⟨⟩
    exact hsolid q hq
  · rw [← List.cons_append, List.getLast?_concat]
    rintro _ ⟨⟩
    exact hsolid q hq

/-- The first byte of a `url(...)`. -/
lemma head_of_url {t : Text} (h : IsTextOf .url t) :
    ∃ b, t.head? = some b ∧ Byte.lower b = byte 'u' := by
  obtain ⟨name, body, hname, rfl⟩ := h
  have hword := beq_iff_eq.1 hname
  cases name with
  | nil => exact absurd hword (by decide)
  | cons b name => exact ⟨b, rfl, (List.cons.inj hword).1⟩

namespace Address

lemma body_eq_self {t : Text} (h : t.startsWith "url(" = false) : body t = t := by
  simp [body, h]

lemma isUnquoted_unquote {t : Text} (h : IsTextOf .string t) : IsUnquoted t (unquote t) := by
  have hstart : t.startsWith "url(" = false := by
    obtain ⟨q, body, hq, rfl⟩ := h
    refine Bool.eq_false_iff.2 fun hstart => ?_
    obtain ⟨rest, hrest⟩ := List.isPrefixOf_iff_prefix.1 hstart
    obtain rfl : byte 'u' = q := Option.some.inj (congrArg List.head? hrest)
    exact absurd hq (by decide)
  rw [unquote, body_eq_self hstart, trim_of_string h]
  exact isUnquoted_trimBytes h

/-- The name of a `url(...)` has three bytes, so that it is taken apart exactly if this name is in
lower case. -/
lemma startsWith_url_iff {name : Text} (hname : name.isWord "url" = true) (rest : Text) :
    Text.startsWith (name ++ byte '(' :: rest) "url(" = true ↔ name = Text.ofString "url" := by
  have hlength : name.length = (Text.ofString "url").length := by
    rw [← beq_iff_eq.1 hname, Text.lower, List.length_map]
  have hsplit : Text.ofString "url(" = Text.ofString "url" ++ [byte '('] := by decide
  rw [Text.startsWith, List.isPrefixOf_iff_prefix, hsplit]
  constructor
  · rintro ⟨more, hmore⟩
    rw [List.append_assoc] at hmore
    exact (List.append_inj_left hmore hlength.symm).symm
  · rintro rfl
    exact ⟨rest, by simp⟩

lemma unquote_url {name : Text} (hname : name.isWord "url" = true) (b : Text) :
    unquote (name ++ byte '(' :: (b ++ [byte ')'])) =
      if name = Text.ofString "url" then b.trim.trimBytes Byte.isQuote
      else name ++ byte '(' :: (b ++ [byte ')']) := by
  have hstart := startsWith_url_iff hname (b ++ [byte ')'])
  split
  · rename_i hlower
    have hbody : body (name ++ byte '(' :: (b ++ [byte ')'])) = b := by
      rw [body, hstart.2 hlower, hlower]
      have hdrop : List.drop 4 (Text.ofString "url" ++ byte '(' :: (b ++ [byte ')'])) =
          b ++ [byte ')'] := rfl
      simp [hdrop]
    rw [unquote, hbody]
  · rename_i hother
    have hfirst : ∀ b, Byte.lower b = byte 'u' →
        Byte.isSolid b = true ∧ Byte.isQuote b = false := by decide +kernel
    obtain ⟨u, hhead, hu⟩ := head_of_url ⟨name, b, hname, rfl⟩
    have hlast : (name ++ byte '(' :: (b ++ [byte ')'])).getLast? = some (byte ')') := by
      rw [← List.cons_append, ← List.append_assoc, List.getLast?_concat]
    have htrim : Text.trim (name ++ byte '(' :: (b ++ [byte ')'])) =
        name ++ byte '(' :: (b ++ [byte ')']) := by
      refine Text.trim_eq_self ?_ ?_
      · rw [hhead]
        rintro _ ⟨⟩
        exact (hfirst u hu).1
      · rw [hlast]
        rintro _ ⟨⟩
        decide
    rw [unquote, body_eq_self (Bool.eq_false_iff.2 fun h => hother (hstart.1 h)), htrim,
      Text.trimBytes_eq_self_iff]
    constructor
    · rw [hhead]
      rintro _ ⟨⟩
      exact (hfirst u hu).2
    · rw [hlast]
      rintro _ ⟨⟩
      decide

lemma isUnwrapped_unquote {t : Text} (h : IsTextOf .url t) : IsUnwrapped t (unquote t) := by
  obtain ⟨name, b, hname, rfl⟩ := h
  refine ⟨name, b, hname, rfl, unquote_url hname b, ?_⟩
  rw [unquote_url hname b]
  split
  · rename_i hlower
    rw [Text.trimBytes_eq_self_iff]
    exact (and_iff_right hlower).symm
  · rename_i hother
    refine iff_of_false (fun h => ?_) fun h => hother h.1
    -- The whole text is longer than what is between the parentheses.
    have hle := Text.length_trim_le b
    rw [← h] at hle
    simp only [List.length_append, List.length_cons, List.length_nil] at hle
    omega

end Address

/-! ## Literals of a tree -/

/-- The first string or URL inside of a node. -/
def Site.literal? (s : Site) : Option Leaf :=
  s.tree.leaves.find? fun l => l.kind == .string || l.kind == .url

/-- The parts of a rule that name the sheets to be imported. -/
def Site.importTargets (s : Site) : List Site :=
  s.children.filter fun c => c.kind == .stringLiteral || c.kind == .uriLiteral || c.kind == .term

section

variable {d : Dialect} {entry : Entry} {source : String} {s : Site} {l : Leaf}

lemma address_of_literal? (hs : s ∈ (parse d entry (Text.ofString source)).root.descendants)
    (hl : s.literal? = some l) : Address.ofSite? s = some (Address.unquote l.text) ∧
      IsAddressOf l (Address.unquote l.text) := by
  have htext := isTextOf_of_descendants hs (List.mem_of_find?_eq_some hl)
  refine ⟨congrArg (Option.map _) hl, fun hkind => ?_, fun hkind => ?_⟩
  · rw [hkind] at htext
    exact Address.isUnquoted_unquote htext
  · rw [hkind] at htext
    exact Address.isUnwrapped_unquote htext

/-- What follows the keyword of a rule that loads a module is its first literal. -/
lemma literal?_behind_keyword (hs : s ∈ (parse d entry (Text.ofString source)).root.descendants)
    (hkind : s.kind = .useRule ∨ s.kind = .forwardRule) {k : Leaf} {rest : List Leaf}
    (hleaves : s.tree.leaves.filter (!·.kind.isTrivia) = k :: l :: rest)
    (hl : l.kind = .string ∨ l.kind = .url) : s.literal? = some l := by
  obtain ⟨y, hbare, hlexical⟩ := exists_lexical d entry (Text.ofString source) s hs
  obtain ⟨t, z, rfl, hat⟩ : ∃ t z, y = .token t z ∧ t.text.head? = some (byte '@') := by
    rcases hkind with hkind | hkind
    all_goals
      rw [hkind] at hlexical
      exact hlexical
  obtain rfl : t.leaf = k := (List.cons.inj ((Site.leaves_of_bare hbare).symm.trans hleaves)).1
  have hk : (t.leaf.kind == .string || t.leaf.kind == .url) = false := by
    have hmem : t.leaf ∈ s.tree.leaves := List.mem_of_mem_filter (hleaves ▸ List.mem_cons_self)
    have htext := isTextOf_of_descendants hs hmem
    refine Bool.eq_false_iff.2 fun h => ?_
    rcases Bool.or_eq_true_iff.1 h with h | h
    · rw [beq_iff_eq.1 h] at htext
      obtain ⟨q, body, hq, hbody⟩ := htext
      obtain rfl : q = byte '@' := Option.some.inj ((congrArg List.head? hbody).symm.trans hat)
      exact absurd hq (by decide)
    · rw [beq_iff_eq.1 h] at htext
      obtain ⟨b, hb, hlower⟩ := head_of_url htext
      obtain rfl : b = byte '@' := Option.some.inj (hb.symm.trans hat)
      exact absurd hlower (by decide)
  have hliteral : s.literal? = (s.tree.leaves.filter (!·.kind.isTrivia)).find? fun l =>
      l.kind == .string || l.kind == .url := by
    rw [List.find?_filter, Site.literal?]
    refine congrArg (fun p => List.find? p s.tree.leaves) (funext fun l => ?_)
    cases l.kind <;> rfl
  rw [hliteral, hleaves, List.find?_cons_of_neg (by simp [hk]),
    List.find?_cons_of_pos (by simpa using hl)]

lemma animationName?_of_string (hs : s ∈ (parse d entry (Text.ofString source)).root.descendants)
    (hkind : s.kind = .keyframes) {c : Site} (hc : c ∈ s.childrenOf .stringLiteral)
    (hl : l ∈ c.tree.leaves) (hstring : l.kind = .string) :
    ∃ a, animationName? s = some a ∧ IsUnquoted l.text a := by
  obtain ⟨y, hbare, hlexical⟩ := exists_lexical d entry (Text.ofString source) s hs
  rw [hkind] at hlexical
  obtain ⟨name, block, hkids, -, hblock⟩ := hlexical
  obtain ⟨hchild, hliteral⟩ := List.mem_filter.1 hc
  have hliteral := beq_iff_eq.1 hliteral
  have hdescendant := Site.mem_descendants_of_children hs hchild
  -- The literal is the first child, since the second one is the block or an error.
  have hfirst : s.children.find? (fun c => c.kind == .identifier || c.kind == .stringLiteral) =
      some c := by
    have hkinds := Site.kinds_of_bare hbare
    rw [hkids] at hkinds
    obtain ⟨first, rest, hchildren, -, hrest⟩ := List.map_eq_cons_iff.1 hkinds
    obtain ⟨second, rest, rfl, hsecond, hnil⟩ := List.map_eq_cons_iff.1 hrest
    obtain rfl := List.map_eq_nil_iff.1 hnil
    rw [hchildren] at hchild ⊢
    simp only [List.mem_cons, List.not_mem_nil, or_false] at hchild hblock
    rcases hchild with rfl | rfl
    · exact List.find?_cons_of_pos (by simp [hliteral])
    · rcases hblock with rfl | rfl <;> cases hliteral.symm.trans hsecond
  obtain ⟨l', hleaves, -⟩ := leaves_of_stringLiteral hdescendant hliteral
  obtain rfl : l = l' := List.mem_singleton.1 (hleaves ▸ hl)
  have htext := isTextOf_of_descendants hdescendant hl
  rw [hstring] at htext
  have hname : c.trimmed = l.text := by
    rw [Site.trimmed, Site.text, Tree.text, hleaves, List.flatMap_singleton, trim_of_string htext]
  refine ⟨l.text.trimBytes Byte.isQuote, ?_, isUnquoted_trimBytes htext⟩
  rw [animationName?, hfirst, Option.map_some, hname]

end

/-- Each address of a rule that imports sheets comes from the first literal in the part that names
the sheet, and the address of a module comes from the first literal of the rule that loads it, which
is the one behind the keyword if there is one. The name of an animation comes from its string. A
string gives its body without the quotes at its ends. A `url(...)` gives what is between the
parentheses, or the whole of its text if the name is not in lower case. -/
theorem literals_are_unquoted (d : Dialect) (entry : Entry) (source : String) :
    ∀ s ∈ (parse d entry (Text.ofString source)).root.descendants,
      List.Forall₂ (fun c a => ∀ l, c.literal? = some l → IsAddressOf l a) s.importTargets
        (importAddresses s) ∧
      (s.kind = .useRule ∨ s.kind = .forwardRule →
        (∀ l, s.literal? = some l → ∃ a, (ModuleUse.ofSite s).address? = some a ∧
          (ModuleForward.ofSite s).address? = some a ∧ IsAddressOf l a) ∧
        ∀ k l rest, s.tree.leaves.filter (!·.kind.isTrivia) = k :: l :: rest →
        l.kind = .string ∨ l.kind = .url →
          s.literal? = some l) ∧
      (s.kind = .keyframes →
        ∀ c ∈ s.childrenOf .stringLiteral, ∀ l ∈ c.tree.leaves, l.kind = .string →
        ∃ a, animationName? s = some a ∧ IsUnquoted l.text a) := by
  intro s hs
  refine ⟨?_, fun hkind => ⟨fun l hl => ?_, ?_⟩, ?_⟩
  · refine List.forall₂_map_right_iff.2 (List.forall₂_same.2 fun c hc l hl => ?_)
    have hdescendant := Site.mem_descendants_of_children hs (List.mem_of_mem_filter hc)
    obtain ⟨haddress, hgiven⟩ := address_of_literal? hdescendant hl
    rw [haddress]
    exact hgiven
  · obtain ⟨haddress, hgiven⟩ := address_of_literal? hs hl
    exact ⟨_, haddress, haddress, hgiven⟩
  · exact fun k l rest hleaves hl => literal?_behind_keyword hs hkind hleaves hl
  · exact fun hkind c hc l hl hstring => animationName?_of_string hs hkind hc hl hstring

/-- A sheet that loads three others in different ways and has an animation. -/
theorem literals_are_unquoted_sheet :
    ∃ sites, sites = (parse .scss .stylesheet (Text.ofString
    "@use 'a';@forward url( b );@import \"c\",url('d');@keyframes 'e'\x7b\x7d")).root.descendants ∧
      (∃ s ∈ sites, s.kind = .useRule ∧ ∃ l, s.literal? = some l ∧
        ∃ a, (ModuleUse.ofSite s).address? = some a ∧ IsAddressOf l a) ∧
      (∃ s ∈ sites, s.kind = .forwardRule ∧ ∃ l, s.literal? = some l ∧
        ∃ a, (ModuleForward.ofSite s).address? = some a ∧ IsAddressOf l a) ∧
      (∃ s ∈ sites, s.kind = .importRule ∧ s.importTargets.length = 2 ∧
        List.Forall₂ (fun c a => ∀ l, c.literal? = some l → IsAddressOf l a) s.importTargets
          (importAddresses s)) ∧
      ∃ s ∈ sites, s.kind = .keyframes ∧
      ∃ c ∈ s.childrenOf .stringLiteral, ∃ l ∈ c.tree.leaves, l.kind = .string ∧
        ∃ a, animationName? s = some a ∧ IsUnquoted l.text a := by
  obtain ⟨sites, hsites⟩ : ∃ sites, sites = (parse .scss .stylesheet (Text.ofString
    "@use 'a';@forward url( b );@import \"c\",url('d');@keyframes 'e'\x7b\x7d")).root.descendants :=
    ⟨_, rfl⟩
  have hresult := literals_are_unquoted .scss .stylesheet
    "@use 'a';@forward url( b );@import \"c\",url('d');@keyframes 'e'\x7b\x7d"
  rw [← hsites] at hresult
  obtain ⟨huse, hforward, himport, hkeyframes⟩ :
      (∃ s ∈ sites, s.kind = .useRule ∧ s.literal?.isSome = true) ∧
      (∃ s ∈ sites, s.kind = .forwardRule ∧ s.literal?.isSome = true) ∧
      (∃ s ∈ sites, s.kind = .importRule ∧ s.importTargets.length = 2) ∧
      ∃ s ∈ sites, s.kind = .keyframes ∧
        ∃ c ∈ s.childrenOf .stringLiteral, ∃ l ∈ c.tree.leaves, l.kind = .string := by
    rw [hsites]
    decide +kernel
  refine ⟨sites, hsites, ?_, ?_, ?_, ?_⟩
  · obtain ⟨s, hs, hkind, hsome⟩ := huse
    obtain ⟨l, hl⟩ := Option.isSome_iff_exists.1 hsome
    obtain ⟨a, ha, -, hgiven⟩ := ((hresult s hs).2.1 (.inl hkind)).1 l hl
    exact ⟨s, hs, hkind, l, hl, a, ha, hgiven⟩
  · obtain ⟨s, hs, hkind, hsome⟩ := hforward
    obtain ⟨l, hl⟩ := Option.isSome_iff_exists.1 hsome
    obtain ⟨a, -, ha, hgiven⟩ := ((hresult s hs).2.1 (.inr hkind)).1 l hl
    exact ⟨s, hs, hkind, l, hl, a, ha, hgiven⟩
  · obtain ⟨s, hs, hkind, htargets⟩ := himport
    exact ⟨s, hs, hkind, htargets, (hresult s hs).1⟩
  · obtain ⟨s, hs, hkind, c, hc, l, hl, hstring⟩ := hkeyframes
    exact ⟨s, hs, hkind, c, hc, l, hl, hstring, (hresult s hs).2.2 hkind c hc l hl hstring⟩

/-- Quotes of the body are lost with those around it, also behind a backslash, and a name in
capitals is not taken off. -/
theorem bodies_of_literals_are_changed :
    ["@import \"'a'\";", "@import url(a\\\");", "@import URL(a);"].map (fun source =>
        ((parse .css .stylesheet (Text.ofString source)).root.descendants.filter
          (·.kind == .importRule)).flatMap importAddresses) =
      ["a", "a\\", "URL(a)"].map fun address => [Text.ofString address] := by
  decide +kernel

end StyleSheet
