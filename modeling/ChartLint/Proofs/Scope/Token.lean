import ChartLint.Proofs.Line.Grammar
import ChartLint.Scope.Token

/-!
# How the tokens of a predicate are spelled

A token is a word, a text between quotes or one of ten signs, and its kind follows from that. The
scanner gives tokens that are spelled in this way, and finds them again in a text in which a blank
follows each.
-/

namespace ChartLint.PredicateToken

def Kind.spelling : Kind → String
  | .widget => "widget"
  | .sectionName => "section"
  | .equals => "=="
  | .differs => "!="
  | .bang => "!"
  | .and => "&&"
  | .not => "not"
  | .in => "in"
  | .openParen => "("
  | .closeParen => ")"
  | .openBracket => "["
  | .closeBracket => "]"
  | .comma => ","
  | .quoted | .word => ""

def fixed (kind : Kind) : PredicateToken :=
  ⟨kind, kind.spelling⟩

def signs : List Kind :=
  [.equals, .differs, .bang, .and, .openParen, .closeParen, .openBracket, .closeBracket, .comma]

inductive Spelled : PredicateToken → Prop where
  | word (c : Char) (cs : List Char) (starts : startsWord c = true)
      (letters : ∀ d ∈ cs, inWord d = true) :
      Spelled ⟨ofWord (String.ofList (c :: cs)), String.ofList (c :: cs)⟩
  | quoted {q : Char} {inner : List Char} (quote : q = '\x22' ∨ q = '\x27') (closed : q ∉ inner) :
      Spelled ⟨.quoted, String.ofList (q :: (inner ++ [q]))⟩
  | sign {kind : Kind} (member : kind ∈ signs) : Spelled (fixed kind)

theorem ofWord_cases (w : String) :
    ofWord w = .word ∨ fixed (ofWord w) = ⟨ofWord w, w⟩ := by
  unfold ofWord
  split_ifs with widget sectionName not in_
  · exact .inr (widget ▸ rfl)
  · exact .inr (sectionName ▸ rfl)
  · exact .inr (not ▸ rfl)
  · exact .inr (in_ ▸ rfl)
  · exact .inl rfl

theorem Spelled.eq_fixed {token : PredicateToken} (spelled : token.Spelled) (kind : Kind)
    (same : token.kind = kind) (bare : kind ≠ .quoted) (keyword : kind ≠ .word) :
    token = fixed kind := by
  subst same
  cases spelled with
  | word c cs starts letters => exact ((ofWord_cases _).resolve_left keyword).symm
  | quoted quote closed => exact absurd rfl bare
  | sign member => rfl

/-! ## Tokens of a text -/

theorem spelled_of_ofChar? {c : Char} {kind : Kind} (found : ofChar? c = some kind) :
    Spelled ⟨kind, String.ofList [c]⟩ := by
  unfold ofChar? at found
  split_ifs at found with h₁ h₂ h₃ h₄ h₅ h₆ <;> cases found <;> subst c <;>
    exact .sign (by decide)

theorem spelled_double {c a b : Char} {cs : List Char} {kind : Kind} (member : kind ∈ signs)
    (spelling : kind.spelling = String.ofList [a, b]) (starts : c = a ∧ cs.head? = some b) :
    Spelled ⟨kind, String.ofList ((c :: cs).take 2)⟩ := by
  obtain ⟨rfl, next⟩ := starts
  obtain ⟨rest, rfl⟩ := List.head?_eq_some_iff.mp next
  have same : fixed kind = ⟨kind, String.ofList ((c :: b :: rest).take 2)⟩ := by
    rw [fixed, spelling]
    rfl
  rw [← same]
  exact .sign member

theorem spelled_of_read {c : Char} {cs : List Char} {kind : Kind} {n : Nat}
    (found : read c cs = .ok (kind, n)) :
    Spelled ⟨kind, String.ofList ((c :: cs).take n)⟩ := by
  unfold read at found
  split at found
  · rename_i starts
    cases found
    have whole : (c :: cs).take (c :: cs.takeWhile inWord).length = c :: cs.takeWhile inWord := by
      rw [List.length_cons, List.take_succ_cons,
        ← List.prefix_iff_eq_take.mp (List.takeWhile_prefix inWord)]
    rw [whole]
    exact .word c _ starts fun d member => List.mem_takeWhile_imp member
  · split at found
    · rename_i quote
      split at found
      · rename_i inner after split
        cases found
        obtain ⟨rfl, closed⟩ := Line.splitOnce?_eq_some_iff.mp split
        have whole : (c :: (inner ++ c :: after)).take (inner.length + 2) =
            c :: (inner ++ [c]) := by
          rw [List.take_succ_cons, List.take_length_add_append]
          rfl
        rw [whole]
        exact .quoted quote closed
      · cases found
    · split_ifs at found with equals differs and
      · cases found
        exact spelled_double (by decide) rfl equals
      · cases found
        exact spelled_double (by decide) rfl differs
      · cases found
        exact spelled_double (by decide) rfl and
      · split at found
        · rename_i single
          cases found
          exact spelled_of_ofChar? single
        · cases found

theorem spelled_of_scan {cs : List Char} {tokens : List PredicateToken}
    (scanned : scan cs = .ok tokens) : ∀ token ∈ tokens, token.Spelled := by
  fun_induction scan cs generalizing tokens with
  | case1 =>
      cases scanned
      simp
  | case2 c cs gap ih => exact ih scanned
  | case3 => cases scanned
  | case4 c cs gap kind n found ih =>
      cases rest : scan (cs.drop (n - 1)) with
      | error e =>
          rw [rest] at scanned
          cases scanned
      | ok others =>
          rw [rest] at scanned
          cases scanned
          exact List.forall_mem_cons.mpr ⟨spelled_of_read found, ih rest⟩

/-! ## Texts of tokens -/

def spread (tokens : List PredicateToken) : List Char :=
  tokens.flatMap fun token => token.text.toList ++ [' ']

theorem scan_of_read (c : Char) (cs : List Char) {rest : List Char} {token : PredicateToken}
    (text : token.text.toList = c :: cs) (solid : Text.isGap c = false)
    (found : read c (cs ++ rest) = .ok (token.kind, token.text.toList.length)) :
    scan (token.text.toList ++ rest) = (scan rest).map (token :: ·) := by
  rw [text, List.length_cons] at found
  have whole : (⟨token.kind, String.ofList ((c :: (cs ++ rest)).take (cs.length + 1))⟩ :
      PredicateToken) = token := by
    rw [List.take_succ_cons, List.take_left', ← text, String.ofList_toList]
    rfl
  rw [text, List.cons_append, scan, solid, found]
  dsimp only
  rw [whole, Nat.add_sub_cancel, List.drop_left]
  rfl

theorem isGap_of_startsWord {c : Char} (starts : startsWord c = true) : Text.isGap c = false := by
  rw [← Bool.not_eq_true]
  intro gap
  simp only [Text.isGap, Bool.or_eq_true, beq_iff_eq] at gap
  rcases gap with rfl | rfl <;> cases starts

theorem scan_spelled {token : PredicateToken} (spelled : token.Spelled) (rest : List Char) :
    scan (token.text.toList ++ ' ' :: rest) = (scan rest).map (token :: ·) := by
  have blank : scan (' ' :: rest) = scan rest := by
    rw [scan]
    rfl
  rw [← blank]
  cases spelled with
  | word c cs starts letters =>
      refine scan_of_read c cs String.toList_ofList (isGap_of_startsWord starts) ?_
      have letters : (cs ++ ' ' :: rest).takeWhile inWord = cs := by
        rw [List.takeWhile_append_of_pos letters, List.takeWhile_cons_of_neg (by decide),
          List.append_nil]
      rw [read, if_pos starts, letters, String.toList_ofList]
  | @quoted q inner quote closed =>
      refine scan_of_read q (inner ++ [q]) String.toList_ofList ?_ ?_
      · rcases quote with rfl | rfl <;> rfl
      · have bare : ¬ startsWord q = true := by
          rcases quote with rfl | rfl <;> decide
        have found : Text.splitOnce? q (inner ++ [q] ++ ' ' :: rest) = some (inner, ' ' :: rest) :=
          Line.splitOnce?_eq_some_iff.mpr ⟨by simp, closed⟩
        rw [read, if_neg bare, if_pos quote, found, String.toList_ofList]
        simp
  | @sign kind member =>
      simp only [signs, List.mem_cons, List.not_mem_nil, or_false] at member
      rcases member with rfl | rfl | rfl | rfl | rfl | rfl | rfl | rfl | rfl
      · exact scan_of_read '=' ['='] rfl rfl rfl
      · exact scan_of_read '!' ['='] rfl rfl rfl
      · exact scan_of_read '!' [] rfl rfl rfl
      · exact scan_of_read '&' ['&'] rfl rfl rfl
      · exact scan_of_read '(' [] rfl rfl rfl
      · exact scan_of_read ')' [] rfl rfl rfl
      · exact scan_of_read '[' [] rfl rfl rfl
      · exact scan_of_read ']' [] rfl rfl rfl
      · exact scan_of_read ',' [] rfl rfl rfl

theorem scan_spread {tokens : List PredicateToken} (spelled : ∀ token ∈ tokens, token.Spelled) :
    scan (spread tokens) = .ok tokens := by
  induction tokens with
  | nil => rw [spread, List.flatMap_nil, scan]
  | cons token tokens ih =>
      obtain ⟨first, others⟩ := List.forall_mem_cons.mp spelled
      have step : spread (token :: tokens) = token.text.toList ++ ' ' :: spread tokens := by
        simp [spread]
      rw [step, scan_spelled first, ih others]
      rfl

end ChartLint.PredicateToken
