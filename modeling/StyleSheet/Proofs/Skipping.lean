import Mathlib
import StyleSheet.Proofs.CustomValue
import StyleSheet.Proofs.Grammar.Recoveries

/-!
# Skipping counts braces

Skipping a token takes with it the group that the token opens. Groups in parentheses and brackets
are given up at a closing brace, and closers of other brackets inside of a group do not count. So
only braces matter in the end: a group in braces goes to the first closing brace at which as many
braces are closed as opened, whatever other brackets lie between (`exec_braces`), and a group in
other brackets closes no brace that it has not opened (`exec_brackets`). Recovering skips token
after token. It closes no brace that it has not opened either, and leaves none open before the end
of the input, if it is not told to consume braces (`exec_resume`). The grammar does so only outside
of all blocks.

All of this holds in any state, also in those that reading a source does not reach. What lies ahead
in a state is `Parser.upcoming`, and rows of tokens that may be skipped are those that settle
(`Braces.Settles`).
-/

namespace StyleSheet

open TokenKind Brackets

/-- Openers and closers of a group are both braces or both not. -/
lemma TokenKind.braces_of_closer? {kind closer : TokenKind} (h : kind.closer? = some closer) :
    (kind.opensBrace = true ∧ closer = .rightBrace) ∨
      (kind.isBrace = false ∧ closer.isBrace = false) := by
  unfold closer? at h
  split at h <;> cases h <;> simp [opensBrace]

/-! ## Rows that settle -/

namespace Braces

variable {row rest : List TokenKind} {kind : TokenKind} {n k i : Nat}

/-- The first `n` tokens of a row close no group in braces that they have not opened, and leave none
open unless the row ends with them. -/
def Settles (row : List TokenKind) (n : Nat) : Prop :=
  n ≤ row.length ∧ ∃ level, climb 0 (row.take n) = some level ∧ (n < row.length → level = 0)

namespace Settles

lemma zero (row : List TokenKind) : Settles row 0 := ⟨Nat.zero_le _, 0, by simp, fun _ => rfl⟩

/-- What settles may be followed by more that does. -/
lemma add (h : Settles row n) (h' : Settles (row.drop n) k) : Settles row (n + k) := by
  obtain ⟨hn, level, hclimb, hlevel⟩ := h
  obtain ⟨hk, level', hclimb', hlevel'⟩ := h'
  rw [List.length_drop] at hk hlevel'
  refine ⟨by omega, ?_⟩
  rcases hn.lt_or_eq with hlt | rfl
  · rw [hlevel hlt] at hclimb
    refine ⟨level', ?_, fun hlt' => hlevel' (by omega)⟩
    rw [List.take_add]
    exact climb_append_of_eq hclimb hclimb'
  · obtain rfl : k = 0 := by omega
    exact ⟨level, hclimb, hlevel⟩

/-- Tokens that are no braces may stand before it. -/
lemma cons (h : Settles rest n) (hkind : kind.isBrace = false) :
    Settles (kind :: rest) (n + 1) := by
  obtain ⟨hn, level, hclimb, hlevel⟩ := h
  refine ⟨by simpa using hn, level, ?_, fun hlt => hlevel (by simpa using hlt)⟩
  rw [List.take_succ_cons, climb_cons_of_not_isBrace hkind, hclimb]

/-- They may also stand behind it. -/
lemma snoc (h : Settles row n) (hget : row[n]? = some kind) (hkind : kind.isBrace = false) :
    Settles row (n + 1) := by
  refine h.add ?_
  rw [List.drop_eq_getElem?_toList_append, hget]
  exact (zero _).cons hkind

lemma climb_group (h : Settles rest n) (hkind : kind.opensBrace = true)
    (hclose : rest[n]? = some .rightBrace) : climb 0 ((kind :: rest).take (n + 2)) = some 0 := by
  obtain ⟨-, level, hclimb, hlevel⟩ := h
  rw [hlevel (List.getElem?_eq_some_iff.1 hclose).1] at hclimb
  rw [List.take_succ_cons, climb_cons_of_opens hkind, List.take_add_one, hclose]
  exact climb_append_of_eq (climb_add hclimb 1) rfl

/-- A group in braces, up to the brace that closes it. -/
lemma group (h : Settles rest n) (hkind : kind.opensBrace = true)
    (hclose : rest[n]? = some .rightBrace) : Settles (kind :: rest) (n + 2) :=
  ⟨by simpa using (List.getElem?_eq_some_iff.1 hclose).1, 0, h.climb_group hkind hclose,
    fun _ => rfl⟩

/-- A group in braces that the end of the row cuts off. -/
lemma cutOff (h : Settles rest rest.length) (hkind : kind.opensBrace = true) :
    Settles (kind :: rest) (rest.length + 1) := by
  obtain ⟨-, level, hclimb, -⟩ := h
  refine ⟨le_refl _, level + 1, ?_, fun hlt => absurd hlt (lt_irrefl _)⟩
  rw [List.take_succ_cons, climb_cons_of_opens hkind]
  exact climb_add hclimb 1

/-- Where nothing but a closing brace can stop and there is none, the row ends. -/
lemma eq_length (h : Settles row n) (hstop : ∀ kind, row[n]? = some kind → kind = .rightBrace)
    (hopen : row[n]? ≠ some .rightBrace) : n = row.length := by
  refine h.1.eq_of_not_lt fun hlt => ?_
  have hget := List.getElem?_eq_getElem hlt
  exact hopen (hstop _ hget ▸ hget)

lemma fronts (h : Settles row n) :
    ∀ front, front <+: row.take n → front.count .rightBrace ≤ front.countP opensBrace := by
  obtain ⟨-, level, hclimb, -⟩ := h
  simpa using (climb_eq_some_iff.1 hclimb).1

lemma counts (h : Settles row n) (hlt : n < row.length) :
    (row.take n).countP opensBrace = (row.take n).count .rightBrace := by
  obtain ⟨-, level, hclimb, hlevel⟩ := h
  rw [hlevel hlt] at hclimb
  simpa using (climb_eq_some_iff.1 hclimb).2

end Settles

/-- The token `i` places ahead is a closing brace, and up to it as many groups are closed as
opened. -/
def ClosesAt (row : List TokenKind) (i : Nat) : Prop :=
  row[i]? = some .rightBrace ∧
    (row.take (i + 1)).countP opensBrace = (row.take (i + 1)).count .rightBrace

instance (row : List TokenKind) (i : Nat) : Decidable (ClosesAt row i) :=
  inferInstanceAs (Decidable (_ ∧ _))

/-- While what is inside of a group settles, the group is open. -/
lemma Settles.not_closesAt (h : Settles rest n) (hkind : kind.opensBrace = true) (hi : i ≤ n) :
    ¬ ClosesAt (kind :: rest) i := by
  intro hclose
  have hfront := h.fronts (rest.take i) (List.take_prefix_take_left hi)
  have hcount := hclose.2
  have hne : kind ≠ .rightBrace := by rintro rfl; cases hkind
  rw [List.take_succ_cons, List.countP_cons_of_pos hkind, List.count_cons_of_ne hne] at hcount
  omega

/-- A group is closed at the first brace before which what is inside of it settles. -/
lemma Settles.isLeast_closesAt (h : Settles rest n) (hkind : kind.opensBrace = true)
    (hclose : rest[n]? = some .rightBrace) : IsLeast {i | ClosesAt (kind :: rest) i} (n + 1) := by
  refine ⟨⟨by simpa using hclose, ?_⟩, fun i hi => ?_⟩
  · simpa using (climb_eq_some_iff.1 (h.climb_group hkind hclose)).2
  · by_contra hlt
    exact h.not_closesAt hkind (by omega) hi

end Braces

open Rule Braces

/-! ## Tokens ahead -/

/-- A row has no more tokens than there are bytes between its bounds. -/
lemma Token.Ordered.length_le {lo hi : Nat} {l : List Token} (h : Ordered lo l hi) :
    l.length ≤ hi - lo := by
  induction l generalizing lo with
  | nil => exact Nat.zero_le _
  | cons t rest ih =>
      obtain ⟨hlo, hstop, hrest⟩ := h
      have hle := ih hrest
      have hstop_le := hrest.le
      rw [List.length_cons]
      omega

namespace Parser

variable {p : Parser} {kind : TokenKind} {rest : List TokenKind} {n : Nat}

/-- The kinds of the tokens ahead, up to the end of the input. A token of the kind `endOfInput`
would end them, since rules do not tell it from the end. -/
def upcoming (p : Parser) : List TokenKind :=
  (p.spot.ahead.map Token.kind).takeWhile (· != .endOfInput)

/-- The bound of the grammar for a source is larger than what lies ahead while the source is
read. -/
lemma Consistent.length_upcoming_lt {d : Dialect} {source : Text} (h : p.Consistent d source) :
    p.upcoming.length < Grammar.bound source.length := by
  have htokens := h.ordered.length_le
  have hrow : p.upcoming.length ≤ (p.spot.ahead.map Token.kind).length :=
    (List.takeWhile_sublist _).length_le
  rw [List.length_map, spot, Token.Stream.spot, List.length_drop] at hrow
  rw [Grammar.bound]
  omega

lemma end_notMem_upcoming (p : Parser) : .endOfInput ∉ p.upcoming := by
  intro h
  simpa using List.mem_takeWhile_imp h

lemma upcoming_take (h : p.upcoming = kind :: rest) : p.take.upcoming = rest := by
  rw [upcoming, spot_take]
  rw [upcoming] at h
  cases hahead : p.spot.ahead with
  | nil => simp [hahead] at h
  | cons t behind =>
      rw [hahead, List.map_cons, List.takeWhile_cons] at h
      rw [Spot.next_of_cons hahead]
      split at h
      · exact (List.cons.inj h).2
      · cases h

lemma upcoming_iterate (hn : n ≤ p.upcoming.length) :
    (take^[n] p).upcoming = p.upcoming.drop n := by
  induction n generalizing p with
  | zero => rfl
  | succ n ih =>
      obtain ⟨kind, rest, h⟩ := List.exists_cons_of_length_pos (l := p.upcoming) (by omega)
      have hrest := upcoming_take h
      rw [h, List.length_cons] at hn
      rw [Function.iterate_succ_apply, ih (by rw [hrest]; omega), hrest, h, List.drop_succ_cons]

/-- What is seen next. -/
lemma kind_view_eq (p : Parser) : p.stream.view.kind 0 = p.upcoming.head?.getD .endOfInput := by
  rw [← view_spot, Spot.kind_view, upcoming]
  cases p.spot.ahead with
  | nil => rfl
  | cons t behind =>
      rw [List.map_cons, List.takeWhile_cons]
      split
      · rfl
      · rename_i hend
        simpa using hend

lemma exists_upcoming_eq_cons (h : p.stream.view.kind 0 ≠ .endOfInput) :
    ∃ rest, p.upcoming = p.stream.view.kind 0 :: rest := by
  rw [kind_view_eq] at h ⊢
  cases hrow : p.upcoming with
  | nil => simp [hrow] at h
  | cons kind rest => exact ⟨rest, rfl⟩

end Parser

/-! ## Rules that skip -/

namespace Grammar

variable {d : Dialect} {bound : Nat} {p q : Parser} {m : Bool} {a b : Rule} {c : View → Bool}
  {kind closer : TokenKind} {rest : List TokenKind}

lemma exec_then (h : exec d bound a p = some ⟨m, q⟩) :
    exec d bound (a >> b) p = exec d bound b q := by
  change (seq a fun _ => b).exec (run d bound) bound p = _
  rw [Rule.exec, show a.exec (run d bound) bound p = _ from h]
  rfl

lemma exec_choose : exec d bound (choose c a b) p =
    if c p.stream.view then exec d bound a p else exec d bound b p := by
  rw [exec, choose, Rule.exec]
  split <;> rfl

/-- In the state `p` the rule takes tokens that settle, at least one, and does nothing else. -/
def Skips (d : Dialect) (bound : Nat) (r : Rule) (p : Parser) (matched : Bool) : Prop :=
  ∃ n, exec d bound r p = some ⟨matched, Parser.take^[n] p⟩ ∧ 0 < n ∧ Settles p.upcoming n

lemma Skips.then_accept (h : Skips d bound a p m) : Skips d bound (a >> accept) p true := by
  obtain ⟨n, hexec, hrest⟩ := h
  exact ⟨n, exec_then hexec, hrest⟩

lemma skips_take (hend : p.stream.view.kind 0 ≠ .endOfInput)
    (hkind : (p.stream.view.kind 0).isBrace = false) : Skips d bound take p true := by
  obtain ⟨rest, hrow⟩ := Parser.exists_upcoming_eq_cons hend
  exact ⟨1, rfl, Nat.one_pos, hrow ▸ (Settles.zero rest).cons hkind⟩

/-- A loop settles if each of its rounds does. -/
lemma repeatUntil_settles
    (hround : ∀ q : Parser, q.upcoming.length < bound → c q.stream.view = false →
      Skips d bound b q true)
    {rounds : Nat} (hbound : p.upcoming.length < bound) (hrounds : p.upcoming.length < rounds) :
    ∃ n, repeatUntil (exec d bound (choose c fail b)) rounds p = some ⟨true, Parser.take^[n] p⟩ ∧
      Settles p.upcoming n ∧ c (Parser.take^[n] p).stream.view = true := by
  induction rounds generalizing p with
  | zero => omega
  | succ rounds ih =>
      rw [repeatUntil, exec_choose]
      cases hc : c p.stream.view with
      | true => exact ⟨0, rfl, .zero _, hc⟩
      | false =>
          -- A round takes at least one token, so the rounds do not run out before the tokens.
          obtain ⟨k, hexec, hk, hsettles⟩ := hround p hbound hc
          have hle := hsettles.1
          have hbehind := Parser.upcoming_iterate hle
          have hlength := congrArg List.length hbehind
          rw [List.length_drop] at hlength
          obtain ⟨n, hrest, hsettles', hstop⟩ := ih (p := Parser.take^[k] p) (by omega) (by omega)
          rw [← Function.iterate_add_apply, Nat.add_comm n k] at hrest hstop
          refine ⟨k + n, ?_, hsettles.add (hbehind ▸ hsettles'), hstop⟩
          simp only [Bool.false_eq_true, if_false, hexec]
          exact hrest

lemma exec_many_settles
    (hround : ∀ q : Parser, q.upcoming.length < bound → c q.stream.view = false →
      Skips d bound b q true)
    (hbound : p.upcoming.length < bound) :
    ∃ n, exec d bound (many (choose c fail b)) p = some ⟨true, Parser.take^[n] p⟩ ∧
      Settles p.upcoming n ∧ c (Parser.take^[n] p).stream.view = true :=
  repeatUntil_settles hround hbound hbound

/-- Wherever something else than a closing brace lies ahead, skipping settles. -/
def SkipsAll (d : Dialect) (bound : Nat) : Prop :=
  ∀ q : Parser, q.upcoming.length < bound → q.stream.view.kind 0 ∉ [.rightBrace, .endOfInput] →
    ∃ m, Skips d bound (call .balanced) q m

lemma skips_balanced_then_accept (h : SkipsAll d bound) (hbound : q.upcoming.length < bound)
    (hkind : q.stream.view.kind 0 ∉ [.rightBrace, .endOfInput]) :
    Skips d bound (call .balanced >> accept) q true := by
  obtain ⟨m, hm⟩ := h q hbound hkind
  exact hm.then_accept

/-- What is inside of a group settles. -/
lemma exec_inside (h : SkipsAll d bound) (hbound : p.upcoming.length < bound) (closer : TokenKind) :
    ∃ n, exec d bound (many (groupRound closer)) p = some ⟨true, Parser.take^[n] p⟩ ∧
      Settles p.upcoming n ∧
      (Parser.take^[n] p).stream.view.kind 0 ∈ [closer, .rightBrace, .endOfInput] := by
  simp only [← isAny_eq_true]
  refine exec_many_settles (fun q hq hc => ?_) hbound
  rw [isAny_eq_false] at hc
  rw [Skips]
  simp only [exec_choose]
  split
  · rename_i hother
    refine skips_take (by simp_all) ?_
    rcases List.mem_pair.1 (isAny_eq_true.1 hother) with heq | heq <;> rw [heq] <;> rfl
  · exact skips_balanced_then_accept h hq (by simp_all)

lemma exec_balanced_of_closer? (hkind : (p.stream.view.kind 0).closer? = some closer) :
    exec d bound balanced p =
      exec d bound (take >> many (groupRound closer) >> token closer) p := by
  rw [exec, balanced, Rule.exec]
  unfold closer? at hkind
  split at hkind <;> cases hkind <;> simp_all [groupRound, exec]

lemma exec_balanced_of_plain (hkind : (p.stream.view.kind 0).closer? = none) :
    exec d bound balanced p = some ⟨true, p.take⟩ := by
  rw [exec, balanced, Rule.exec]
  dsimp only
  split <;> simp_all [closer?, Rule.exec]

/-- Skipping a group: what is inside of it settles, and its closer is taken if it comes then.
Otherwise a closing brace comes, or nothing. -/
lemma exec_group (h : SkipsAll d bound) (hrow : p.upcoming = kind :: rest)
    (hbound : rest.length < bound) (hkind : kind.closer? = some closer) :
    ∃ n, Settles rest n ∧ (∀ k, rest[n]? = some k → k = closer ∨ k = .rightBrace) ∧
      exec d bound balanced p = some ⟨decide (rest[n]? = some closer),
        Parser.take^[if rest[n]? = some closer then n + 2 else n + 1] p⟩ := by
  have hbehind := Parser.upcoming_take hrow
  obtain ⟨n, hinside, hsettles, hstop⟩ := exec_inside (p := p.take) h (by rwa [hbehind]) closer
  have hview := (Parser.take^[n] p.take).kind_view_eq
  rw [Parser.upcoming_iterate hsettles.1, hbehind, List.head?_drop] at hview
  have hend : closer ≠ .endOfInput := by
    rintro rfl
    cases isCloser_of_closer? hkind
  refine ⟨n, hbehind ▸ hsettles, ?_, ?_⟩
  · intro k hk
    rw [hview, hk, Option.getD_some, List.mem_cons, List.mem_pair] at hstop
    refine hstop.imp_right (Or.resolve_right · ?_)
    rintro rfl
    exact p.take.end_notMem_upcoming (hbehind ▸ List.mem_of_getElem? hk)
  · have hseen : (Parser.take^[n] p.take).stream.view.is 0 closer = true ↔
        rest[n]? = some closer := by
      rw [is_eq_true, hview]
      cases rest[n]? with
      | none => simpa using hend.symm
      | some k => simp
    rw [exec_balanced_of_closer? (by rw [Parser.kind_view_eq, hrow]; exact hkind), exec_then rfl,
      exec_then hinside, token, when, exec_choose]
    simp only [hseen]
    split
    · rename_i hclose
      rw [decide_eq_true hclose, Function.iterate_succ_apply, Function.iterate_succ_apply']
      rfl
    · rename_i hopen
      rw [decide_eq_false hopen]
      rfl

/-- A group settles, whether it is closed, cut off or given up before a closing brace. -/
lemma settles_group {n : Nat} (hsettles : Settles rest n) (hkind : kind.closer? = some closer)
    (hstop : ∀ k, rest[n]? = some k → k = closer ∨ k = .rightBrace) :
    Settles (kind :: rest) (if rest[n]? = some closer then n + 2 else n + 1) := by
  rcases braces_of_closer? hkind with ⟨hopens, rfl⟩ | ⟨hopens, hcloses⟩
  · split
    · rename_i hclose
      exact hsettles.group hopens hclose
    · rename_i hopen
      obtain rfl := hsettles.eq_length (by simpa using hstop) hopen
      exact hsettles.cutOff hopens
  · split
    · rename_i hclose
      exact (hsettles.snoc hclose hcloses).cons hopens
    · exact hsettles.cons hopens

theorem skipsAll (d : Dialect) (bound : Nat) : SkipsAll d bound := by
  induction bound with
  | zero => exact fun q hbound => absurd hbound (Nat.not_lt_zero _)
  | succ bound ih =>
      intro q hbound hkind
      change ∃ m n, exec d bound balanced q = _ ∧ _
      obtain ⟨rest, hrow⟩ := Parser.exists_upcoming_eq_cons (p := q) (by simp_all)
      cases hcloser : (q.stream.view.kind 0).closer? with
      | none =>
          have hplain : (q.stream.view.kind 0).isBrace = false := by
            revert hkind hcloser
            cases q.stream.view.kind 0 <;> decide
          rw [exec_balanced_of_plain hcloser]
          exact ⟨true, 1, rfl, Nat.one_pos, hrow ▸ (Settles.zero rest).cons hplain⟩
      | some closer =>
          -- Groups inside have the bound one smaller, and behind the opener the row is one shorter.
          obtain ⟨n, hsettles, hstop, hexec⟩ :=
            exec_group ih hrow (by simpa [hrow] using hbound) hcloser
          exact ⟨_, _, hexec, by split <;> omega, hrow ▸ settles_group hsettles hcloser hstop⟩

/-! ## Groups -/

lemma exec_call_balanced (hbound : p.upcoming.length < bound)
    (hkind : (p.stream.view.kind 0).closer? = some closer) :
    ∃ rest n, p.upcoming = p.stream.view.kind 0 :: rest ∧ Settles rest n ∧
      (∀ k, rest[n]? = some k → k = closer ∨ k = .rightBrace) ∧
      exec d bound (call .balanced) p = some ⟨decide (rest[n]? = some closer),
        Parser.take^[if rest[n]? = some closer then n + 2 else n + 1] p⟩ := by
  obtain ⟨rest, hrow⟩ := Parser.exists_upcoming_eq_cons (facts_of_closer? hkind).2.1
  rw [hrow, List.length_cons] at hbound
  obtain ⟨bound, rfl⟩ := Nat.exists_eq_add_of_lt hbound
  obtain ⟨n, hgroup⟩ := exec_group (skipsAll d (rest.length + 1 + bound)) hrow (by omega) hkind
  exact ⟨rest, n, hrow, hgroup⟩

/-- A group in braces is skipped up to the first closing brace at which as many groups are closed as
opened, or to the end of the input if there is none. -/
lemma exec_braces (hbound : p.upcoming.length < bound)
    (hkind : (p.stream.view.kind 0).opensBrace = true) :
    ∃ m n, exec d bound (call .balanced) p = some ⟨m, Parser.take^[n] p⟩ ∧
      (m = true ↔ ∃ i, ClosesAt p.upcoming i) ∧
      (m = true → ∃ i, IsLeast {i | ClosesAt p.upcoming i} i ∧ n = i + 1) ∧
      (m = false → n = p.upcoming.length) := by
  have hcloser : (p.stream.view.kind 0).closer? = some .rightBrace := by
    revert hkind
    cases p.stream.view.kind 0 <;> decide
  obtain ⟨rest, n, hrow, hsettles, hstop, hexec⟩ := exec_call_balanced (d := d) hbound hcloser
  refine ⟨_, _, hexec, ?_⟩
  rw [hrow]
  by_cases hclose : rest[n]? = some .rightBrace
  · have hleast := hsettles.isLeast_closesAt hkind hclose
    simp only [hclose, decide_true, if_true, true_iff, true_implies, Bool.true_eq_false,
      false_implies, and_true]
    exact ⟨⟨n + 1, hleast.1⟩, n + 1, hleast, rfl⟩
  · obtain rfl := hsettles.eq_length (by simpa using hstop) hclose
    have hopen : ¬ ∃ i, ClosesAt (p.stream.view.kind 0 :: rest) i := by
      rintro ⟨i, hi⟩
      have hlt : i < rest.length + 1 := (List.getElem?_eq_some_iff.1 hi.1).1
      exact hsettles.not_closesAt hkind (by omega) hi
    simp [hopen]

/-- A group in other brackets is skipped to its closer, or else to a closing brace that it has not
opened or to the end of the input. -/
lemma exec_brackets (hbound : p.upcoming.length < bound)
    (hkind : p.stream.view.kind 0 ∈ [.leftParen, .leftBracket]) :
    ∃ m n, exec d bound (call .balanced) p = some ⟨m, Parser.take^[n] p⟩ ∧ n ≤ p.upcoming.length ∧
      (∀ front, front <+: p.upcoming.take n → front.count .rightBrace ≤ front.countP opensBrace) ∧
      (m = true → ∃ k, n = k + 1 ∧ p.upcoming[k]? = (p.stream.view.kind 0).closer?) ∧
      (m = false → ∀ kind, p.upcoming[n]? = some kind → kind = .rightBrace) := by
  obtain ⟨closer, hcloser⟩ : ∃ closer, (p.stream.view.kind 0).closer? = some closer := by
    rcases List.mem_pair.1 hkind with heq | heq <;> exact ⟨_, by rw [heq]; rfl⟩
  obtain ⟨rest, n, hrow, hsettles, hstop, hexec⟩ := exec_call_balanced (d := d) hbound hcloser
  have hgroup := settles_group hsettles hcloser hstop
  refine ⟨_, _, hexec, hrow ▸ hgroup.1, hrow ▸ hgroup.fronts, ?_, ?_⟩
  · intro hclose
    rw [decide_eq_true_eq] at hclose
    rw [if_pos hclose, hrow, hcloser]
    exact ⟨n + 1, rfl, hclose⟩
  · intro hopen kind hnext
    rw [decide_eq_false_iff_not] at hopen
    rw [if_neg hopen, hrow, List.getElem?_cons_succ] at hnext
    refine (hstop kind hnext).resolve_left ?_
    rintro rfl
    exact hopen hnext

/-! ## Recovering -/

lemma exec_skipUntil (hc : ∀ v : View, v.kind 0 ∈ [.rightBrace, .endOfInput] → c v = true)
    (hbound : p.upcoming.length < bound) :
    ∃ n, exec d bound (skipUntil c) p = some ⟨true, Parser.take^[n] p⟩ ∧ Settles p.upcoming n ∧
      c (Parser.take^[n] p).stream.view = true := by
  refine exec_many_settles (fun q hq hgoes => ?_) hbound
  refine skips_balanced_then_accept (skipsAll d bound) hq fun hstop => ?_
  rw [hc _ hstop] at hgoes
  cases hgoes

/-- Recovering that consumes no braces takes as many of them that close as such that open, and at no
point more, but at the end of the input groups may be left open. It ends with a token to consume, or
before one to stop at. -/
lemma exec_resume {consume stop : List TokenKind} (hbound : p.upcoming.length < bound)
    (hconsume : ∀ kind ∈ consume, kind.isBrace = false) :
    ∃ m n, exec d bound (resume consume stop) p = some ⟨m, Parser.take^[n] p⟩ ∧
      (.endOfInput ∉ consume → n ≤ p.upcoming.length) ∧
      (∀ front, front <+: p.upcoming.take n → front.count .rightBrace ≤ front.countP opensBrace) ∧
      (n < p.upcoming.length →
        (p.upcoming.take n).countP opensBrace = (p.upcoming.take n).count .rightBrace) ∧
      ((∃ k, n = k + 1 ∧ ∃ kind ∈ consume, p.upcoming[k]? = some kind) ∨
        ∀ kind, p.upcoming[n]? = some kind → kind ∈ .rightBrace :: stop) := by
  obtain ⟨n, hexec, hsettles, hstop⟩ := exec_skipUntil (d := d) (p := p)
    (c := fun v => v.isAny consume || v.isAny stop || v.isAny [.rightBrace, .endOfInput])
    (by simp +contextual) hbound
  have hview := (Parser.take^[n] p).kind_view_eq
  rw [Parser.upcoming_iterate hsettles.1, List.head?_drop] at hview
  have hresume : exec d bound (resume consume stop) p =
      if (Parser.take^[n] p).stream.view.isAny consume then some ⟨true, Parser.take^[n + 1] p⟩
      else some ⟨false, Parser.take^[n] p⟩ := by
    rw [resume, exec_then hexec, when, exec_choose, Function.iterate_succ_apply']
    rfl
  rw [hresume]
  simp only [Bool.or_eq_true, isAny_eq_true] at hstop ⊢
  cases hnext : p.upcoming[n]? with
  | none =>
      -- At the end of the input there is nothing left, also if its kind is one to consume.
      have hlength := List.getElem?_eq_none_iff.1 hnext
      have hle := hsettles.1
      rw [hnext, Option.getD_none] at hview
      rw [hview]
      split
      · rename_i hmem
        refine ⟨true, n + 1, rfl, absurd hmem, ?_,
          by omega, .inr (by simp [hlength.trans n.le_succ])⟩
        rw [List.take_of_length_le (by omega), ← List.take_of_length_le hlength]
        exact hsettles.fronts
      · exact ⟨false, n, rfl, fun _ => hle, hsettles.fronts, hsettles.counts,
          .inr (by simp [hnext])⟩
  | some kind =>
      rw [hnext, Option.getD_some] at hview
      rw [hview] at hstop ⊢
      split
      · rename_i hmem
        have hmore := hsettles.snoc hnext (hconsume kind hmem)
        exact ⟨true, n + 1, rfl, fun _ => hmore.1, hmore.fronts, hmore.counts,
          .inl ⟨n, rfl, kind, hmem, hnext⟩⟩
      · rename_i hmem
        refine ⟨false, n, rfl, fun _ => hsettles.1, hsettles.fronts, hsettles.counts,
          .inr fun kind' hkind => ?_⟩
        obtain rfl : kind = kind' := by simpa [hnext] using hkind
        have hend : kind ≠ .endOfInput := by
          rintro rfl
          exact p.end_notMem_upcoming (List.mem_of_getElem? hnext)
        simp_all [or_comm]

/-- In every state, skipping from an opening brace matches exactly if a later brace closes as many
groups as have been opened, and ends behind the first such brace, or else at the end of the input.
Skipping from another bracket closes no brace that it has not opened. Nor does recovering, which
leaves no brace open before the end of the input either; that holds for lists `consume` without
braces, as all recoveries of the grammar have them but for those outside of blocks that consume a
semicolon or a closing brace. -/
theorem skipping_counts_braces (d : Dialect) (p : Parser) {bound : Nat}
    (hbound : p.upcoming.length < bound) :
    ((p.stream.kindAt 0).opensBrace = true →
      ∃ m n, exec d bound (call .balanced) p = some ⟨m, Parser.take^[n] p⟩ ∧
        (m = true ↔ ∃ i, ClosesAt p.upcoming i) ∧
        (m = true → ∃ i, IsLeast {i | ClosesAt p.upcoming i} i ∧ n = i + 1) ∧
        (m = false → n = p.upcoming.length)) ∧
    (p.stream.kindAt 0 ∈ [.leftParen, .leftBracket] →
      ∃ m n, exec d bound (call .balanced) p = some ⟨m, Parser.take^[n] p⟩ ∧ n ≤ p.upcoming.length ∧
        (∀ front, front <+: p.upcoming.take n → front.count .rightBrace ≤ front.countP opensBrace) ∧
        (m = true → ∃ k, n = k + 1 ∧ p.upcoming[k]? = (p.stream.kindAt 0).closer?) ∧
        (m = false → ∀ kind, p.upcoming[n]? = some kind → kind = .rightBrace)) ∧
    (∀ consume stop : List TokenKind, (∀ kind ∈ consume, kind.isBrace = false) →
      ∃ m n, exec d bound (resume consume stop) p = some ⟨m, Parser.take^[n] p⟩ ∧
        (.endOfInput ∉ consume → n ≤ p.upcoming.length) ∧
        (∀ front, front <+: p.upcoming.take n → front.count .rightBrace ≤ front.countP opensBrace) ∧
        (n < p.upcoming.length →
          (p.upcoming.take n).countP opensBrace = (p.upcoming.take n).count .rightBrace) ∧
        ((∃ k, n = k + 1 ∧ ∃ kind ∈ consume, p.upcoming[k]? = some kind) ∨
          ∀ kind, p.upcoming[n]? = some kind → kind ∈ .rightBrace :: stop)) ∧
    ∀ name consume stop, (resume consume stop).IsPartOf (rule d name) →
      (∀ kind ∈ consume, kind.isBrace = false) ∨
        (name.isInner = false ∧ ∀ kind, kind ∈ consume ↔ kind ∈ [.semicolon, .rightBrace]) :=
  ⟨exec_braces hbound, exec_brackets hbound, fun _ _ => exec_resume hbound,
    fun _ _ _ => consume_of_isPartOf⟩

/-- A group in braces around brackets that do not match, the parenthesis in it, and recovering from
there. The remedy for a missing block outside of all blocks is the exception. -/
theorem skipping_counts_braces_mismatched :
    ∃ p, p = Parser.ofSource .scss (Text.ofString "\x7b([#\x7b)\x7d]\x7d;") ∧
      p.upcoming =
        [.leftBrace, .leftParen, .leftBracket, .hashBrace, .rightParen, .rightBrace, .rightBracket,
        .rightBrace, .semicolon] ∧
      exec .scss (Grammar.bound 10) (call .balanced) p = some ⟨true, Parser.take^[8] p⟩ ∧
      (∃ m n,
        exec .scss (Grammar.bound 10) (call .balanced) p.take = some ⟨m, Parser.take^[n] p.take⟩ ∧
        ∀ front, front <+: p.take.upcoming.take n →
        front.count .rightBrace ≤ front.countP opensBrace) ∧
      (∃ m n, exec .scss (Grammar.bound 10) (resume [.semicolon] []) p.take =
        some ⟨m, Parser.take^[n] p.take⟩ ∧
        (n < 8 → (p.take.upcoming.take n).countP opensBrace =
          (p.take.upcoming.take n).count .rightBrace)) ∧
      (resume [.semicolon, .rightBrace] []).IsPartOf (rule .scss (.ruleset false)) ∧
      (Nonterminal.ruleset false).isInner = false := by
  obtain ⟨p, hp⟩ : ∃ p, p = Parser.ofSource .scss (Text.ofString "\x7b([#\x7b)\x7d]\x7d;") :=
    ⟨_, rfl⟩
  have hread : p.Consistent .scss (Text.ofString "\x7b([#\x7b)\x7d]\x7d;") := hp ▸ .ofSource _ _
  have hrow : p.upcoming =
      [.leftBrace, .leftParen, .leftBracket, .hashBrace, .rightParen, .rightBrace,
      .rightBracket, .rightBrace, .semicolon] := by
    rw [hp]
    decide +kernel
  have hbehind := Parser.upcoming_take hrow
  have hbound : p.upcoming.length < Grammar.bound 10 := hread.length_upcoming_lt
  obtain ⟨hbraces, -, -, hparts⟩ := skipping_counts_braces .scss p hbound
  have hbound' : p.take.upcoming.length < Grammar.bound 10 := by rw [hbehind]; decide
  obtain ⟨-, hbrackets, hresume, -⟩ := skipping_counts_braces .scss p.take hbound'
  obtain ⟨m, n, hexec, hmatched, hleast, -⟩ := hbraces (by rw [hp]; decide +kernel)
  obtain rfl : m = true := hmatched.2 ⟨7, by rw [hrow]; decide⟩
  obtain ⟨i, hi, rfl⟩ := hleast rfl
  obtain rfl : i = 7 := by
    rw [hrow] at hi
    have hfirst : ∀ j < 7,
        ¬ ClosesAt [.leftBrace, .leftParen, .leftBracket, .hashBrace, .rightParen, .rightBrace,
      .rightBracket, .rightBrace, .semicolon] j := by decide
    exact le_antisymm (hi.2 (by decide)) (not_lt.1 fun hlt => hfirst i hlt hi.1)
  obtain ⟨m₁, n₁, hexec₁, -, hfronts, -⟩ := hbrackets (by rw [hp]; decide +kernel)
  obtain ⟨m₂, n₂, hexec₂, -, -, hcounts, -⟩ := hresume [.semicolon] [] (by decide)
  have hpart : (resume [.semicolon, .rightBrace] []).IsPartOf (rule .scss (.ruleset false)) :=
    .node (.next true (.next true (.first (.next false (.next true .self)))))
  refine ⟨p, hp, hrow, hexec, ⟨m₁, n₁, hexec₁, hfronts⟩, ⟨m₂, n₂, hexec₂, ?_⟩, hpart, ?_⟩
  · rw [hbehind] at hcounts ⊢
    exact hcounts
  · exact ((hparts _ _ _ hpart).resolve_left (by decide)).1

end Grammar

end StyleSheet
