import ChartLint.Proofs.Outcome
import ChartLint.Proofs.Scope.Token
import ChartLint.Scope.Reader

/-!
# The grammar of predicates

What the tokens of a predicate are is said by `Predicate.Term` and `Predicate.Derives`: one or more
terms with `&&` between them, where a term is negated, in parentheses, or a test. Reading accepts
exactly the lists of tokens that derive a predicate, and gives this predicate.

* `readTerm_of_term`: what derives a term is read as this term, with any tokens after it. The depth
  allowed to the reading is at least twice the number of tokens.
* `terms_of_read`: what is read as a term or as some terms derives them.
* `parse_derives_iff`: both on texts, and as a consequence that a predicate in writing is read as
  itself.
-/

namespace ChartLint

def ScopeVar.kind : ScopeVar → PredicateToken.Kind
  | .widget => .widget
  | .sectionName => .sectionName

namespace Predicate

open PredicateToken (fixed)

def separated (sign : PredicateToken.Kind) : List (List PredicateToken) → List PredicateToken
  | [] => []
  | part :: parts => part ++ parts.flatMap (fixed sign :: ·)

inductive Value : PredicateToken → String → Prop where
  | quoted (q : Char) (inner : List Char) :
      Value ⟨.quoted, String.ofList (q :: (inner ++ [q]))⟩ (String.ofList inner)
  | word {kind : PredicateToken.Kind} (text : String)
      (bare : kind ∈ [.word, .widget, .sectionName, .not, .in]) : Value ⟨kind, text⟩ text

def bracketed (values : List PredicateToken) : List PredicateToken :=
  fixed .openBracket :: (separated .comma (values.map fun value => [value]) ++
    [fixed .closeBracket])

def parenthesized (tokens : List PredicateToken) : List PredicateToken :=
  fixed .openParen :: (tokens ++ [fixed .closeParen])

inductive Test : List PredicateToken → Predicate → Prop where
  | equals (var : ScopeVar) {token : PredicateToken} {value : String} (read : Value token value) :
      Test [fixed var.kind, fixed .equals, token] (.equals var value)
  | differs (var : ScopeVar) {token : PredicateToken} {value : String} (read : Value token value) :
      Test [fixed var.kind, fixed .differs, token] (.not (.equals var value))
  | oneOf (var : ScopeVar) {values : List (PredicateToken × String)} (filled : values ≠ [])
      (read : ∀ value ∈ values, Value value.1 value.2) :
      Test (fixed var.kind :: fixed .in :: bracketed (values.map Prod.fst))
        (.oneOf var (values.map Prod.snd))
  | noneOf (var : ScopeVar) {values : List (PredicateToken × String)} (filled : values ≠ [])
      (read : ∀ value ∈ values, Value value.1 value.2) :
      Test (fixed var.kind :: fixed .not :: fixed .in :: bracketed (values.map Prod.fst))
        (.not (.oneOf var (values.map Prod.snd)))

inductive Joins : List Predicate → Predicate → Prop where
  | one (p : Predicate) : Joins [p] p
  | several {ps : List Predicate} (two : 2 ≤ ps.length) : Joins ps (.all ps)

inductive Term : List PredicateToken → Predicate → Prop where
  | not {tokens : List PredicateToken} {p : Predicate} (term : Term tokens p) :
      Term (fixed .bang :: tokens) (.not p)
  | group {parts : List (List PredicateToken × Predicate)} {p : Predicate}
      (terms : ∀ part ∈ parts, Term part.1 part.2) (joins : Joins (parts.map Prod.snd) p) :
      Term (parenthesized (separated .and (parts.map Prod.fst))) p
  | test {tokens : List PredicateToken} {p : Predicate} (test : Test tokens p) : Term tokens p

def Derives (tokens : List PredicateToken) (p : Predicate) : Prop :=
  ∃ parts : List (List PredicateToken × Predicate), (∀ part ∈ parts, Term part.1 part.2) ∧
    tokens = separated .and (parts.map Prod.fst) ∧ Joins (parts.map Prod.snd) p

variable {tokens rest : List PredicateToken} {p : Predicate}

theorem joins_iff {ps : List Predicate} : Joins ps p ↔ ps ≠ [] ∧ p = conjunction ps := by
  constructor
  · intro joins
    cases joins with
    | one => exact ⟨List.cons_ne_nil _ _, rfl⟩
    | several two =>
        match ps, two with
        | _ :: _ :: _, _ => exact ⟨List.cons_ne_nil _ _, rfl⟩
  · rintro ⟨filled, rfl⟩
    match ps, filled with
    | [p], _ => exact .one p
    | p :: q :: ps, _ => exact .several (by simp)

/-! ## Tests are read -/

theorem valueOf?_of_value {token : PredicateToken} {value : String} (read : Value token value) :
    valueOf? token = some value := by
  cases read with
  | quoted q inner =>
      simp only [valueOf?, String.toList_ofList, List.drop_one, List.tail_cons,
        List.dropLast_concat]
  | word text bare =>
      simp only [List.mem_cons, List.not_mem_nil, or_false] at bare
      rcases bare with rfl | rfl | rfl | rfl | rfl <;> rfl

theorem readValue_of_value {token : PredicateToken} {value : String} (read : Value token value)
    (rest : List PredicateToken) : readValue (token :: rest) = .ok (value, rest) := by
  rw [readValue, valueOf?_of_value read]

theorem readMore_of_values {values : List (PredicateToken × String)}
    (read : ∀ value ∈ values, Value value.1 value.2) (rest : List PredicateToken) :
    readMore ((values.map fun value => [value.1]).flatMap (fixed .comma :: ·) ++
      fixed .closeBracket :: rest) = .ok (values.map Prod.snd, rest) := by
  induction values with
  | nil => rfl
  | cons value values ih =>
      obtain ⟨first, others⟩ := List.forall_mem_cons.mp read
      simp only [List.map_cons, List.flatMap_cons, List.cons_append, List.nil_append, readMore,
        fixed, valueOf?_of_value first]
      exact map_eq_ok_iff.mpr ⟨_, ih others, rfl⟩

theorem readList_of_values {values : List (PredicateToken × String)} (filled : values ≠ [])
    (read : ∀ value ∈ values, Value value.1 value.2) (rest : List PredicateToken) :
    readList (bracketed (values.map Prod.fst) ++ rest) = .ok (values.map Prod.snd, rest) := by
  obtain ⟨value, values, rfl⟩ := List.exists_cons_of_ne_nil filled
  obtain ⟨first, others⟩ := List.forall_mem_cons.mp read
  have more := readMore_of_values others rest
  simp only [readList, bracketed, separated, List.map_map, List.map_cons, List.cons_append,
    List.nil_append, List.append_assoc, bind_eq_ok_iff]
  exact ⟨_, rfl, _, readValue_of_value first _, _, more, rfl⟩

theorem readTest_of_test (test : Test tokens p) (rest : List PredicateToken) :
    readTest (tokens ++ rest) = .ok (p, rest) := by
  have comparison (var : ScopeVar) (tokens : List PredicateToken) :
      readTest (fixed var.kind :: tokens) = readComparison var tokens := by
    cases var <;> rfl
  cases test with
  | equals var read =>
      rw [List.cons_append, comparison]
      exact map_eq_ok_iff.mpr ⟨_, readValue_of_value read rest, rfl⟩
  | differs var read =>
      rw [List.cons_append, comparison]
      exact map_eq_ok_iff.mpr ⟨_, readValue_of_value read rest, rfl⟩
  | oneOf var filled read =>
      rw [List.cons_append, comparison]
      exact map_eq_ok_iff.mpr ⟨_, readList_of_values filled read rest, rfl⟩
  | noneOf var filled read =>
      rw [List.cons_append, comparison]
      exact bind_eq_ok_iff.mpr ⟨_, rfl, bind_eq_ok_iff.mpr
        ⟨_, readList_of_values filled read rest, rfl⟩⟩

/-! ## Terms are read -/

theorem readTerm_of_test (fuel : Nat) (test : Test tokens p) (rest : List PredicateToken) :
    readTerm fuel (tokens ++ rest) = .ok (p, rest) := by
  have same (var : ScopeVar) (tail : List PredicateToken) :
      readTerm fuel (fixed var.kind :: tail) = readTest (fixed var.kind :: tail) := by
    cases fuel <;> cases var <;> rfl
  rw [← readTest_of_test test rest]
  cases test <;> exact same _ _

theorem separated_cons (sign : PredicateToken.Kind) (part : List PredicateToken)
    (parts : List (List PredicateToken)) (filled : parts ≠ []) :
    separated sign (part :: parts) = part ++ fixed sign :: separated sign parts := by
  obtain ⟨next, parts, rfl⟩ := List.exists_cons_of_ne_nil filled
  rfl

theorem readTerms_of_parts {parts : List (List PredicateToken × Predicate)} (filled : parts ≠ [])
    (terms : ∀ part ∈ parts, ∀ fuel rest, 2 * part.1.length ≤ fuel →
      readTerm fuel (part.1 ++ rest) = .ok (part.2, rest))
    (fuel : Nat) (enough : 2 * (separated .and (parts.map Prod.fst)).length + 1 ≤ fuel)
    (rest : List PredicateToken) (ends : ∀ token ∈ rest.head?, token.kind ≠ .and) :
    readTerms fuel (separated .and (parts.map Prod.fst) ++ rest) =
      .ok (parts.map Prod.snd, rest) := by
  induction parts generalizing fuel with
  | nil => exact absurd rfl filled
  | cons part parts ih =>
      obtain ⟨first, others⟩ := List.forall_mem_cons.mp terms
      obtain ⟨fuel, rfl⟩ : ∃ n, fuel = n + 1 := ⟨fuel - 1, by omega⟩
      by_cases more : parts = []
      · subst more
        simp only [List.map_cons, List.map_nil, separated, List.flatMap_nil, List.append_nil]
          at enough ⊢
        rw [readTerms, bind_eq_ok_iff]
        refine ⟨_, first fuel rest (by omega), ?_⟩
        dsimp only
        split
        · exact absurd rfl (ends _ rfl)
        · rfl
      · have mapped : parts.map Prod.fst ≠ [] := by simpa using more
        rw [List.map_cons, separated_cons .and _ _ mapped] at enough ⊢
        simp only [List.length_append, List.length_cons] at enough
        rw [readTerms, List.append_assoc, bind_eq_ok_iff]
        refine ⟨_, first fuel _ (by omega), ?_⟩
        exact bind_eq_ok_iff.mpr ⟨_, ih more others fuel (by omega), rfl⟩

theorem readTerm_of_term (term : Term tokens p) (fuel : Nat) (rest : List PredicateToken)
    (enough : 2 * tokens.length ≤ fuel) : readTerm fuel (tokens ++ rest) = .ok (p, rest) := by
  induction term generalizing fuel rest with
  | @not tokens p term ih =>
      rw [List.length_cons] at enough
      obtain ⟨fuel, rfl⟩ : ∃ n, fuel = n + 1 := ⟨fuel - 1, by omega⟩
      exact map_eq_ok_iff.mpr ⟨_, ih fuel rest (by omega), rfl⟩
  | @group parts p terms joins ih =>
      obtain ⟨filled, rfl⟩ := joins_iff.mp joins
      have filled : parts ≠ [] := by simpa using filled
      simp only [parenthesized, List.length_cons, List.length_append, List.length_nil] at enough
      obtain ⟨fuel, rfl⟩ : ∃ n, fuel = n + 1 := ⟨fuel - 1, by omega⟩
      have inner := readTerms_of_parts filled ih fuel (by omega) (fixed .closeParen :: rest)
        (by simp [fixed])
      rw [parenthesized, List.cons_append, List.append_assoc]
      exact bind_eq_ok_iff.mpr ⟨_, inner, rfl⟩
  | test test => exact readTerm_of_test fuel test rest

/-! ## What is read derives -/

section Sound

variable {kind : PredicateToken.Kind} {expected value : String} {values : List String}

theorem exists_of_expect (read : expect kind expected tokens = .ok rest) :
    ∃ token, tokens = token :: rest ∧ token.kind = kind := by
  unfold expect at read
  split at read
  · rename_i token after
    split_ifs at read with same
    · cases read
      exact ⟨token, rfl, same⟩
    · cases read
  · cases read

theorem value_of_valueOf? {token : PredicateToken} (spelled : token.Spelled)
    (read : valueOf? token = some value) : Value token value := by
  have of_value {other : String} (found : Value token other) : Value token value := by
    have same := valueOf?_of_value found
    rw [read] at same
    cases same
    exact found
  cases spelled with
  | word c cs starts letters =>
      apply of_value
      apply Value.word
      unfold PredicateToken.ofWord
      split_ifs <;> decide
  | quoted quote closed => exact of_value (.quoted _ _)
  | sign member =>
      simp only [PredicateToken.signs, List.mem_cons, List.not_mem_nil, or_false] at member
      rcases member with rfl | rfl | rfl | rfl | rfl | rfl | rfl | rfl | rfl <;> cases read

theorem exists_of_readValue (spelled : ∀ token ∈ tokens, token.Spelled)
    (read : readValue tokens = .ok (value, rest)) :
    ∃ token, tokens = token :: rest ∧ Value token value := by
  unfold readValue at read
  split at read
  · rename_i token after
    split at read
    · rename_i found
      cases read
      exact ⟨token, rfl, value_of_valueOf? (spelled token List.mem_cons_self) found⟩
    · cases read
  · cases read

theorem exists_of_readMore (spelled : ∀ token ∈ tokens, token.Spelled)
    (read : readMore tokens = .ok (values, rest)) :
    ∃ found : List (PredicateToken × String), (∀ value ∈ found, Value value.1 value.2) ∧
      tokens = (found.map fun value => [value.1]).flatMap (fixed .comma :: ·) ++
        fixed .closeBracket :: rest ∧ values = found.map Prod.snd := by
  fun_induction readMore tokens generalizing values with
  | case1 => cases read
  | case2 token after kind =>
      cases read
      have closing := (spelled token List.mem_cons_self).eq_fixed _ kind (by decide) (by decide)
      exact ⟨[], by simp, by simp [closing], rfl⟩
  | case3 => cases read
  | case4 token kind next after value found ih =>
      obtain ⟨comma, others⟩ := List.forall_mem_cons.mp spelled
      obtain ⟨first, others⟩ := List.forall_mem_cons.mp others
      obtain ⟨⟨values, after⟩, more, pair⟩ := map_eq_ok_iff.mp read
      cases pair
      obtain ⟨pairs, each, rfl, rfl⟩ := ih others more
      refine ⟨(next, value) :: pairs,
        List.forall_mem_cons.mpr ⟨value_of_valueOf? first found, each⟩, ?_, rfl⟩
      rw [comma.eq_fixed _ kind (by decide) (by decide)]
      rfl
  | case5 => cases read
  | case6 => cases read

theorem exists_of_readList (spelled : ∀ token ∈ tokens, token.Spelled)
    (read : readList tokens = .ok (values, rest)) :
    ∃ found : List (PredicateToken × String), found ≠ [] ∧
      (∀ value ∈ found, Value value.1 value.2) ∧
      tokens = bracketed (found.map Prod.fst) ++ rest ∧ values = found.map Prod.snd := by
  obtain ⟨inside, opened, read⟩ := bind_eq_ok_iff.mp read
  obtain ⟨⟨value, more⟩, first, read⟩ := bind_eq_ok_iff.mp read
  obtain ⟨⟨values, after⟩, others, read⟩ := bind_eq_ok_iff.mp read
  cases read
  obtain ⟨opening, rfl, kind⟩ := exists_of_expect opened
  obtain ⟨bracket, spelled⟩ := List.forall_mem_cons.mp spelled
  obtain ⟨token, rfl, found⟩ := exists_of_readValue spelled first
  obtain ⟨pairs, each, rfl, rfl⟩ :=
    exists_of_readMore (List.forall_mem_cons.mp spelled).2 others
  refine ⟨(token, value) :: pairs, List.cons_ne_nil _ _,
    List.forall_mem_cons.mpr ⟨found, each⟩, ?_, rfl⟩
  rw [bracket.eq_fixed _ kind (by decide) (by decide)]
  simp [bracketed, separated, Function.comp_def]

theorem exists_of_readComparison {var : ScopeVar} (spelled : ∀ token ∈ tokens, token.Spelled)
    (read : readComparison var tokens = .ok (p, rest)) :
    ∃ found, tokens = found ++ rest ∧ Test (fixed var.kind :: found) p := by
  unfold readComparison at read
  split at read
  · cases read
  · rename_i token after
    obtain ⟨sign, spelled⟩ := List.forall_mem_cons.mp spelled
    split at read
    · rename_i kind
      obtain ⟨⟨value, rest⟩, single, pair⟩ := map_eq_ok_iff.mp read
      cases pair
      obtain ⟨token, rfl, found⟩ := exists_of_readValue spelled single
      rw [sign.eq_fixed _ kind (by decide) (by decide)]
      exact ⟨_, rfl, .equals var found⟩
    · rename_i kind
      obtain ⟨⟨value, rest⟩, single, pair⟩ := map_eq_ok_iff.mp read
      cases pair
      obtain ⟨token, rfl, found⟩ := exists_of_readValue spelled single
      rw [sign.eq_fixed _ kind (by decide) (by decide)]
      exact ⟨_, rfl, .differs var found⟩
    · rename_i kind
      obtain ⟨⟨values, rest⟩, list, pair⟩ := map_eq_ok_iff.mp read
      cases pair
      obtain ⟨values, filled, each, rfl, rfl⟩ := exists_of_readList spelled list
      rw [sign.eq_fixed _ kind (by decide) (by decide)]
      exact ⟨_, rfl, .oneOf var filled each⟩
    · rename_i kind
      obtain ⟨inside, expected, read⟩ := bind_eq_ok_iff.mp read
      obtain ⟨⟨values, rest⟩, list, pair⟩ := bind_eq_ok_iff.mp read
      cases pair
      obtain ⟨word, rfl, in_⟩ := exists_of_expect expected
      obtain ⟨second, spelled⟩ := List.forall_mem_cons.mp spelled
      obtain ⟨values, filled, each, rfl, rfl⟩ := exists_of_readList spelled list
      rw [sign.eq_fixed _ kind (by decide) (by decide),
        second.eq_fixed _ in_ (by decide) (by decide)]
      exact ⟨_, rfl, .noneOf var filled each⟩
    · cases read

theorem exists_of_readTest (spelled : ∀ token ∈ tokens, token.Spelled)
    (read : readTest tokens = .ok (p, rest)) :
    ∃ found, tokens = found ++ rest ∧ Test found p := by
  unfold readTest at read
  split at read
  · cases read
  · rename_i token after
    obtain ⟨name, spelled⟩ := List.forall_mem_cons.mp spelled
    split at read
    · rename_i kind
      obtain ⟨found, rfl, test⟩ := exists_of_readComparison spelled read
      rw [name.eq_fixed _ kind (by decide) (by decide)]
      exact ⟨_, rfl, test⟩
    · rename_i kind
      obtain ⟨found, rfl, test⟩ := exists_of_readComparison spelled read
      rw [name.eq_fixed _ kind (by decide) (by decide)]
      exact ⟨_, rfl, test⟩
    · cases read

theorem terms_of_read (fuel : Nat) :
    (∀ {tokens rest p}, (∀ token ∈ tokens, token.Spelled) →
      readTerm fuel tokens = .ok (p, rest) → ∃ found, tokens = found ++ rest ∧ Term found p) ∧
    ∀ {tokens rest ps}, (∀ token ∈ tokens, token.Spelled) →
      readTerms fuel tokens = .ok (ps, rest) →
      ∃ parts : List (List PredicateToken × Predicate), (∀ part ∈ parts, Term part.1 part.2) ∧
        parts ≠ [] ∧ tokens = separated .and (parts.map Prod.fst) ++ rest ∧
        ps = parts.map Prod.snd := by
  have of_test {tokens rest : List PredicateToken} {p : Predicate}
      (spelled : ∀ token ∈ tokens, token.Spelled) (read : readTest tokens = .ok (p, rest)) :
      ∃ found, tokens = found ++ rest ∧ Term found p := by
    obtain ⟨found, rfl, test⟩ := exists_of_readTest spelled read
    exact ⟨found, rfl, .test test⟩
  -- Each of the two readings goes on with less fuel, so they are followed together.
  induction fuel with
  | zero =>
      refine ⟨fun spelled read => ?_, fun spelled read => ?_⟩
      · rw [readTerm] at read
        · exact of_test spelled read
        · simp
        · simp
      · rw [readTerms] at read
        unfold refuse at read
        split at read <;> cases read
  | succ fuel ih =>
      obtain ⟨term, terms⟩ := ih
      constructor
      · intro tokens rest p spelled read
        unfold readTerm at read
        split at read
        · rename_i less text after same
          cases same
          obtain ⟨⟨inner, rest⟩, one, pair⟩ := map_eq_ok_iff.mp read
          cases pair
          obtain ⟨sign, spelled⟩ := List.forall_mem_cons.mp spelled
          obtain ⟨found, rfl, inside⟩ := term spelled one
          rw [sign.eq_fixed .bang rfl (by decide) (by decide)]
          exact ⟨_, rfl, .not inside⟩
        · rename_i less text after same
          cases same
          obtain ⟨⟨ps, after⟩, several, closed⟩ := bind_eq_ok_iff.mp read
          obtain ⟨rest, expected, pair⟩ := bind_eq_ok_iff.mp closed
          cases pair
          obtain ⟨sign, spelled⟩ := List.forall_mem_cons.mp spelled
          obtain ⟨parts, inside, filled, rfl, rfl⟩ := terms spelled several
          obtain ⟨closing, rfl, kind⟩ := exists_of_expect expected
          have closing := (spelled closing (by simp)).eq_fixed _ kind (by decide) (by decide)
          rw [sign.eq_fixed .openParen rfl (by decide) (by decide), closing]
          refine ⟨_, ?_, .group inside (joins_iff.mpr ⟨by simpa using filled, rfl⟩)⟩
          simp [parenthesized]
        · exact of_test spelled read
      · intro tokens rest ps spelled read
        rw [readTerms, bind_eq_ok_iff] at read
        obtain ⟨⟨p, after⟩, read, others⟩ := read
        obtain ⟨found, rfl, inside⟩ := term spelled read
        dsimp only at others
        split at others
        · rename_i text after
          obtain ⟨⟨ps, rest⟩, more, pair⟩ := bind_eq_ok_iff.mp others
          cases pair
          obtain ⟨_, spelled⟩ := List.forall_mem_append.mp spelled
          obtain ⟨sign, spelled⟩ := List.forall_mem_cons.mp spelled
          obtain ⟨parts, terms, filled, rfl, rfl⟩ := terms spelled more
          refine ⟨(found, p) :: parts, List.forall_mem_cons.mpr ⟨inside, terms⟩,
            List.cons_ne_nil _ _, ?_, rfl⟩
          rw [List.map_cons, separated_cons .and _ _ (by simpa using filled),
            sign.eq_fixed .and rfl (by decide) (by decide)]
          simp
        · cases others
          exact ⟨[(found, p)], List.forall_mem_singleton.mpr inside, List.cons_ne_nil _ _,
            by simp [separated], rfl⟩

end Sound

theorem parse_ok_iff_derives {text : String} :
    parse text = .ok p ↔
      ∃ tokens, PredicateToken.scan text.toList = .ok tokens ∧ Derives tokens p := by
  rw [parse, bind_eq_ok_iff]
  apply exists_congr
  intro tokens
  apply and_congr_right
  intro scanned
  rw [bind_eq_ok_iff]
  constructor
  · rintro ⟨⟨ps, after⟩, read, ended⟩
    obtain ⟨parts, terms, filled, rfl, rfl⟩ :=
      (terms_of_read _).2 (PredicateToken.spelled_of_scan scanned) read
    dsimp only at ended
    split_ifs at ended with empty
    · cases ended
      rw [List.isEmpty_iff.mp empty, List.append_nil]
      exact ⟨parts, terms, rfl, joins_iff.mpr ⟨by simpa using filled, rfl⟩⟩
    · unfold refuse at ended
      split at ended <;> cases ended
  · rintro ⟨parts, terms, rfl, joins⟩
    obtain ⟨filled, rfl⟩ := joins_iff.mp joins
    have read := readTerms_of_parts (by simpa using filled)
      (fun part member => readTerm_of_term (terms part member)) _ (Nat.le_succ _) [] (by simp)
    rw [List.append_nil] at read
    exact ⟨_, read, rfl⟩

/-! ## Predicates in writing -/

def quoted (value : String) : PredicateToken :=
  let q := if '\x27' ∈ value.toList then '\x22' else '\x27'
  ⟨.quoted, String.ofList (q :: (value.toList ++ [q]))⟩

mutual

def written : Predicate → List PredicateToken
  | .equals var value => parenthesized [fixed var.kind, fixed .equals, quoted value]
  | .oneOf var values =>
    parenthesized (fixed var.kind :: fixed .in :: bracketed (values.map quoted))
  | .not inner => parenthesized (fixed .bang :: written inner)
  | .all parts => parenthesized (separated .and (writtenAll parts))

def writtenAll : List Predicate → List (List PredicateToken)
  | [] => []
  | part :: parts => written part :: writtenAll parts

end

def render (p : Predicate) : String :=
  String.ofList (PredicateToken.spread (written p))

def Quotable (value : String) : Prop :=
  '\x22' ∉ value.toList ∨ '\x27' ∉ value.toList

inductive Printable : Predicate → Prop where
  | equals (var : ScopeVar) {value : String} (quotable : Quotable value) :
      Printable (.equals var value)
  | oneOf (var : ScopeVar) {values : List String} (filled : values ≠ [])
      (quotable : ∀ value ∈ values, Quotable value) : Printable (.oneOf var values)
  | not {inner : Predicate} (printable : Printable inner) : Printable (.not inner)
  | all {parts : List Predicate} (two : 2 ≤ parts.length)
      (printable : ∀ part ∈ parts, Printable part) : Printable (.all parts)

theorem writtenAll_eq (parts : List Predicate) : writtenAll parts = parts.map written := by
  induction parts with
  | nil => rfl
  | cons part parts ih => rw [writtenAll, ih, List.map_cons]

theorem value_quoted (value : String) : Value (quoted value) value := by
  have read := Value.quoted (if '\x27' ∈ value.toList then '\x22' else '\x27') value.toList
  rw [String.ofList_toList] at read
  exact read

theorem Term.parenthesized (term : Term tokens p) : Term (Predicate.parenthesized tokens) p := by
  have whole : separated .and ([(tokens, p)].map Prod.fst) = tokens := by simp [separated]
  rw [← whole]
  exact .group (List.forall_mem_singleton.mpr term) (.one p)

theorem term_written (printable : Printable p) : Term (written p) p := by
  induction printable with
  | equals var quotable => exact Term.parenthesized (.test (.equals var (value_quoted _)))
  | @oneOf var values filled quotable =>
      have read : ∀ value ∈ values.map fun value => (quoted value, value),
          Value value.1 value.2 := by
        simp [value_quoted]
      have test := Test.oneOf var (by simpa using filled) read
      simp only [List.map_map, Function.comp_def, List.map_id'] at test
      exact Term.parenthesized (.test test)
  | not printable ih => exact Term.parenthesized (.not ih)
  | @all parts two printable ih =>
      have terms : ∀ part ∈ parts.map fun part => (written part, part), Term part.1 part.2 := by
        simpa using ih
      have grouped := Term.group terms (.several (by simpa using two))
      simp only [List.map_map, Function.comp_def, List.map_id'] at grouped
      rw [written, writtenAll_eq]
      exact grouped

theorem spelled_quoted {value : String} (quotable : Quotable value) : (quoted value).Spelled := by
  rw [quoted]
  split_ifs with single
  · exact .quoted (.inl rfl) (quotable.resolve_right (not_not.mpr single))
  · exact .quoted (.inr rfl) single

theorem spelled_var (var : ScopeVar) : (fixed var.kind).Spelled := by
  cases var with
  | widget => exact .word 'w' ['i', 'd', 'g', 'e', 't'] rfl (List.all_eq_true.mp rfl)
  | sectionName =>
      exact .word 's' ['e', 'c', 't', 'i', 'o', 'n'] rfl (List.all_eq_true.mp rfl)

theorem spelled_separated {sign : PredicateToken.Kind} (member : sign ∈ PredicateToken.signs)
    {parts : List (List PredicateToken)} (spelled : ∀ part ∈ parts, ∀ token ∈ part, token.Spelled) :
    ∀ token ∈ separated sign parts, token.Spelled := by
  cases parts with
  | nil => simp [separated]
  | cons part parts =>
      obtain ⟨first, others⟩ := List.forall_mem_cons.mp spelled
      apply List.forall_mem_append.mpr ⟨first, ?_⟩
      intro token inside
      obtain ⟨part, one, inside⟩ := List.mem_flatMap.mp inside
      rcases List.mem_cons.mp inside with rfl | inside
      · exact .sign member
      · exact others part one token inside

theorem spelled_parenthesized (spelled : ∀ token ∈ tokens, token.Spelled) :
    ∀ token ∈ parenthesized tokens, token.Spelled :=
  List.forall_mem_cons.mpr ⟨.sign (by decide), List.forall_mem_append.mpr
    ⟨spelled, List.forall_mem_singleton.mpr (.sign (by decide))⟩⟩

theorem spelled_bracketed {values : List PredicateToken}
    (spelled : ∀ value ∈ values, value.Spelled) : ∀ token ∈ bracketed values, token.Spelled := by
  apply List.forall_mem_cons.mpr ⟨.sign (by decide), List.forall_mem_append.mpr
    ⟨spelled_separated (by decide) ?_, List.forall_mem_singleton.mpr (.sign (by decide))⟩⟩
  simpa using spelled

theorem spelled_written (printable : Printable p) : ∀ token ∈ written p, token.Spelled := by
  induction printable with
  | equals var quotable =>
      apply spelled_parenthesized
      simp only [List.forall_mem_cons]
      exact ⟨spelled_var var, .sign (by decide), spelled_quoted quotable, by simp⟩
  | oneOf var filled quotable =>
      apply spelled_parenthesized
      simp only [List.forall_mem_cons]
      refine ⟨spelled_var var, .word 'i' ['n'] rfl (List.all_eq_true.mp rfl), spelled_bracketed ?_⟩
      simpa using fun value member => spelled_quoted (quotable value member)
  | not printable ih =>
      exact spelled_parenthesized (List.forall_mem_cons.mpr ⟨.sign (by decide), ih⟩)
  | all two printable ih =>
      rw [written, writtenAll_eq]
      exact spelled_parenthesized (spelled_separated (by decide) (by simpa using ih))

theorem parse_render (printable : Printable p) : parse (render p) = .ok p := by
  rw [parse_ok_iff_derives]
  refine ⟨written p, ?_, [(written p, p)], ?_, ?_, .one p⟩
  · rw [render, String.toList_ofList]
    exact PredicateToken.scan_spread (spelled_written printable)
  · exact List.forall_mem_singleton.mpr (term_written printable)
  · simp [separated]

/-- Exactly the texts whose tokens derive a predicate are read, as this predicate, and so a
predicate in writing is read as itself. -/
theorem parse_derives_iff :
    (∀ text p, parse text = .ok p ↔
      ∃ tokens, PredicateToken.scan text.toList = .ok tokens ∧ Derives tokens p) ∧
    ∀ p, Printable p → parse (render p) = .ok p :=
  ⟨fun _ _ => parse_ok_iff_derives, fun _ => parse_render⟩

/-- A nested predicate whose values have a keyword, a quote and nothing in them. -/
theorem parse_derives_iff_nested :
    parse (render (.all [.not (.equals .widget "it's"), .oneOf .sectionName ["in", ""]])) =
      .ok (.all [.not (.equals .widget "it's"), .oneOf .sectionName ["in", ""]]) := by
  apply parse_derives_iff.2
  refine .all (by decide) (List.forall_mem_cons.mpr ⟨.not (.equals _ (.inl (by decide))),
    List.forall_mem_singleton.mpr (.oneOf _ (by decide) ?_)⟩)
  exact List.forall_mem_cons.mpr ⟨.inl (by decide),
    List.forall_mem_singleton.mpr (.inl (by decide))⟩

end Predicate
end ChartLint
