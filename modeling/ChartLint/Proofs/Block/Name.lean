import ChartLint.Proofs.Block.Reports

/-!
# The forms of names in blocks

Names stand in three places, and each has a reader of its own. Here the places are described without
the readers, and the readers are shown to find what is described.

* `Block.Declaration`: a declaration, whose name goes up to the first blank or `=`.
* `Block.Loop`: the variable and the collection of a loop.
* `Block.Segments`: the references of a text, from left to right.
-/

namespace ChartLint

namespace Text

def Cut (p : Char → Bool) (cs piece rest : List Char) : Prop :=
  cs = piece ++ rest ∧ (∀ c ∈ piece, p c = true) ∧ ∀ c ∈ rest.head?, p c = false

theorem Cut.eq {p : Char → Bool} {cs piece rest : List Char} (cut : Cut p cs piece rest) :
    cs.takeWhile p = piece ∧ cs.dropWhile p = rest := by
  obtain ⟨rfl, within, boundary⟩ := cut
  rw [List.takeWhile_append_of_pos within, List.dropWhile_append_of_pos within]
  cases rest with
  | nil => simp
  | cons c rest =>
      have stops : p c = false := boundary c rfl
      simp [stops]

theorem cut_self (p : Char → Bool) (cs : List Char) :
    Cut p cs (cs.takeWhile p) (cs.dropWhile p) := by
  refine ⟨List.takeWhile_append_dropWhile.symm, fun c => List.mem_takeWhile_imp, ?_⟩
  intro c first
  have stops := List.head?_dropWhile_not p cs
  rw [Option.mem_def.mp first] at stops
  simpa using stops

theorem isSome_dropLead? (piece cs : List Char) :
    (dropLead? piece cs).isSome = true ↔ piece <+: cs := by
  induction piece generalizing cs with
  | nil => simp [dropLead?]
  | cons a piece ih =>
      cases cs with
      | nil => simp [dropLead?]
      | cons c cs =>
          rw [dropLead?, List.cons_prefix_cons]
          split
          · simp_all
          · simp_all

theorem contains_iff (piece cs : List Char) : contains piece cs = true ↔ piece <:+: cs := by
  induction cs with
  | nil => simp [contains]
  | cons c cs ih => rw [contains, Bool.or_eq_true, isSome_dropLead?, ih, List.infix_cons_iff]

end Text

namespace Block

/-- `[a-z0-9_]+` -/
def Name (cs : List Char) : Prop :=
  cs ≠ [] ∧ ∀ c ∈ cs, Line.Letter c ∨ Line.Digit c ∨ c = '_'

theorem inName_iff (c : Char) : inName c = true ↔ Line.Letter c ∨ Line.Digit c ∨ c = '_' := by
  simp [inName, Line.letter_iff, Line.digit_iff, or_assoc]

theorem name_iff (cs : List Char) : Name cs ↔ isName cs = true := by
  simp [Name, isName, inName_iff]

instance (cs : List Char) : Decidable (Name cs) :=
  decidable_of_iff _ (name_iff cs).symm

theorem Name.not_blank {cs : List Char} (name : Name cs) : ∀ c ∈ cs, Text.isBlank c = false := by
  intro c member
  exact Line.isBlank_of_wordChar ((name.2 c member).imp_right (·.imp_right .inl))

/-! ## Declarations -/

/-- `name = rest`, where the sign may be missing. The name ends at the first blank or sign. -/
structure Declaration (tail name rest : List Char) : Prop where
  plain : ∀ c ∈ name, c ≠ '=' ∧ Text.isBlank c = false
  split : ∃ gap, (∀ c ∈ gap, Text.isBlank c = true) ∧
    (tail = name ++ (gap ++ '=' :: rest) ∨
      tail = name ++ (gap ++ rest) ∧ (∀ c ∈ rest.head?, c ≠ '=' ∧ Text.isBlank c = false) ∧
        (gap = [] → rest = []))

theorem stops_iff (c : Char) :
    (!(c == '=' || Text.isBlank c)) = false ↔ c = '=' ∨ Text.isBlank c = true := by
  rw [Bool.not_eq_false', Bool.or_eq_true, beq_iff_eq]

theorem dropLead?_equals {cs : List Char} (other : ∀ c ∈ cs.head?, c ≠ '=') :
    Text.dropLead? ['='] cs = none := by
  cases cs with
  | nil => rfl
  | cons c cs => rw [Text.dropLead?, if_neg (other c rfl).symm]

theorem declarationParts_of_declaration {tail name rest : List Char}
    (declaration : Declaration tail name rest) : declarationParts tail = (name, rest) := by
  obtain ⟨plain, gap, blank, split⟩ := declaration
  have within : ∀ c ∈ name, (!(c == '=' || Text.isBlank c)) = true := by simpa using plain
  -- what follows the name starts with a blank or a sign
  have cut (follow : List Char)
      (stops : ∀ c ∈ (gap ++ follow).head?, c = '=' ∨ Text.isBlank c = true) :
      (name ++ (gap ++ follow)).takeWhile (fun c => !(c == '=' || Text.isBlank c)) = name ∧
        (name ++ (gap ++ follow)).dropWhile (fun c => !(c == '=' || Text.isBlank c)) =
          gap ++ follow :=
    Text.Cut.eq ⟨rfl, within, fun c head => (stops_iff c).mpr (stops c head)⟩
  have first (follow : List Char) (stops : ∀ c ∈ follow.head?, c = '=') :
      ∀ c ∈ (gap ++ follow).head?, c = '=' ∨ Text.isBlank c = true := by
    intro c head
    cases gap with
    | nil => exact .inl (stops c head)
    | cons d gap =>
        obtain rfl : d = c := by simpa using head
        exact .inr (blank d List.mem_cons_self)
  have trimmed (follow : List Char) (solid : ∀ c ∈ follow.head?, Text.isBlank c = false) :
      Text.trimStart (gap ++ follow) = follow :=
    (Text.Cut.eq ⟨rfl, blank, solid⟩).2
  unfold declarationParts
  rcases split with rfl | ⟨rfl, solid, follows⟩
  · obtain ⟨taken, dropped⟩ := cut ('=' :: rest) (first _ (by simp))
    simp only [taken, dropped, trimmed ('=' :: rest) (by simp; rfl)]
    rfl
  · have stops : ∀ c ∈ (gap ++ rest).head?, c = '=' ∨ Text.isBlank c = true := by
      cases gap with
      | nil => simp [follows rfl]
      | cons d gap => exact fun c head => .inr (blank c (by simp_all))
    obtain ⟨taken, dropped⟩ := cut rest stops
    have unsigned := dropLead?_equals fun c head => (solid c head).1
    simp only [taken, dropped, trimmed rest fun c head => (solid c head).2, unsigned]
    rfl

theorem declaration_declarationParts (tail : List Char) :
    Declaration tail (declarationParts tail).1 (declarationParts tail).2 := by
  obtain ⟨split, within, boundary⟩ := Text.cut_self (fun c => !(c == '=' || Text.isBlank c)) tail
  unfold declarationParts
  dsimp only
  generalize tail.takeWhile (fun c => !(c == '=' || Text.isBlank c)) = name at *
  generalize tail.dropWhile (fun c => !(c == '=' || Text.isBlank c)) = after at *
  obtain ⟨spaced, blank, solid⟩ := Text.cut_self Text.isBlank after
  change after = after.takeWhile Text.isBlank ++ Text.trimStart after at spaced
  change ∀ c ∈ (Text.trimStart after).head?, Text.isBlank c = false at solid
  generalize after.takeWhile Text.isBlank = gap at *
  generalize Text.trimStart after = follow at *
  subst split spaced
  refine ⟨by simpa using within, gap, blank, ?_⟩
  by_cases signed : follow.head? = some '='
  · obtain ⟨rest, rfl⟩ := List.head?_eq_some_iff.mp signed
    exact .inl rfl
  · have other : ∀ c ∈ follow.head?, c ≠ '=' := by
      rintro c head rfl
      exact signed head
    rw [dropLead?_equals other]
    refine .inr ⟨rfl, fun c head => ⟨other c head, solid c head⟩, ?_⟩
    rintro rfl
    -- without a blank the rest would have to start with a sign
    cases follow with
    | nil => rfl
    | cons c follow =>
        rcases (stops_iff c).mp (boundary c rfl) with equals | blank
        · exact absurd equals (other c rfl)
        · exact absurd blank (by simp [solid c rfl])

theorem declaration_iff {tail name rest : List Char} :
    Declaration tail name rest ↔ declarationParts tail = (name, rest) := by
  constructor
  · exact declarationParts_of_declaration
  · intro found
    have declaration := declaration_declarationParts tail
    rwa [found] at declaration

/-! ## Loops -/

/-- `variable in collection`, with blanks between the words and after them. -/
structure Loop (tail loopVar collection : List Char) : Prop where
  named : Name loopVar
  filled : collection ≠ []
  solid : Text.Solid collection
  split : ∃ gap gap' trail, tail = loopVar ++ (gap ++ 'i' :: 'n' :: (gap' ++ collection ++ trail)) ∧
    (∀ c ∈ gap ++ gap' ++ trail, Text.isBlank c = true) ∧ gap ≠ [] ∧ gap' ≠ []

theorem loopParts?_of_loop {tail : Span} {loopVar collection : List Char}
    (loop : Loop tail.text.toList loopVar collection) :
    ∃ column, loopParts? tail =
      some (String.ofList loopVar, .place collection tail.line column) := by
  obtain ⟨named, filled, solid, gap, gap', trail, split, blank, between, between'⟩ := loop
  simp only [List.mem_append, or_imp, forall_and] at blank
  obtain ⟨⟨blankGap, blankGap'⟩, blankTrail⟩ := blank
  obtain ⟨d, gap, rfl⟩ := List.exists_cons_of_ne_nil between
  obtain ⟨d', gap', rfl⟩ := List.exists_cons_of_ne_nil between'
  have first := blankGap d List.mem_cons_self
  have first' := blankGap' d' List.mem_cons_self
  have cut : Text.Cut (fun c => !Text.isBlank c) tail.text.toList loopVar
      (d :: gap ++ 'i' :: 'n' :: (d' :: gap' ++ collection ++ trail)) :=
    ⟨split, fun c member => by simpa using named.not_blank c member, by simpa using first⟩
  have trimmed : Text.trimStart (d :: gap ++ 'i' :: 'n' :: (d' :: gap' ++ collection ++ trail)) =
      'i' :: 'n' :: (d' :: gap' ++ collection ++ trail) :=
    (Text.Cut.eq ⟨rfl, blankGap, by simp; rfl⟩).2
  have core := Text.trim_of_split blankGap' solid blankTrail
  unfold loopParts?
  simp only [cut.eq.1, cut.eq.2, trimmed, (name_iff loopVar).mp named, Span.trimmed, core]
  rw [if_neg (by simp), if_pos (by simp [filled, first'])]
  exact ⟨_, rfl⟩

theorem loop_of_loopParts? {tail collection : Span} {loopVar : String}
    (found : loopParts? tail = some (loopVar, collection)) :
    Loop tail.text.toList loopVar.toList collection.text.toList := by
  obtain ⟨split, -, boundary⟩ := Text.cut_self (fun c => !Text.isBlank c) tail.text.toList
  unfold loopParts? at found
  dsimp only at found
  generalize tail.text.toList.takeWhile (fun c => !Text.isBlank c) = name at *
  generalize tail.text.toList.dropWhile (fun c => !Text.isBlank c) = after at *
  obtain ⟨spaced, blank, -⟩ := Text.cut_self Text.isBlank after
  change after = after.takeWhile Text.isBlank ++ Text.trimStart after at spaced
  split at found
  · cases found
  · rename_i formed
    rw [Bool.not_eq_true, Bool.or_eq_false_iff, Bool.not_eq_false'] at formed
    split at found
    · rename_i rest body
      obtain ⟨filled, same⟩ := Option.ite_none_right_eq_some.mp found
      obtain ⟨rfl, rfl⟩ := Prod.mk.inj (Option.some.inj same)
      simp only [Bool.and_eq_true] at filled
      rw [body] at spaced
      have gap : after.takeWhile Text.isBlank ≠ [] := by
        intro none_
        rw [none_, List.nil_append] at spaced
        have stops := boundary 'i' (by simp [spaced])
        exact absurd stops (by decide)
      have gap' : rest.takeWhile Text.isBlank ≠ [] := by
        cases rest with
        | nil => simp at filled
        | cons c rest =>
            have first : Text.isBlank c = true := by simpa using filled.1
            simp [first]
      rw [String.toList_ofList]
      refine ⟨(name_iff name).mpr formed.2, by simpa using filled.2, Span.solid_trimmed _ _ _,
        after.takeWhile Text.isBlank, rest.takeWhile Text.isBlank,
        (rest.dropWhile Text.isBlank).rtakeWhile Text.isBlank, ?_, ?_, gap, gap'⟩
      · rw [Line.toList_trimmed, ← Text.trim_split, ← spaced]
        exact split
      · simp only [List.mem_append, or_imp, forall_and]
        exact ⟨⟨blank, fun c => List.mem_takeWhile_imp⟩, fun c => List.mem_rtakeWhile_imp⟩
    · cases found

/-! ## References -/

/-- The references of a text that starts at a column, each with the column after its brace. A
reference goes from the next mark to the first brace that closes it. A mark without one ends the
search. -/
inductive Segments : Nat → List Char → List (List Char × Nat) → Prop where
  | none {column : Nat} {cs : List Char} (free : ¬ ['@', '\x7b'] <:+: cs) : Segments column cs []
  | unclosed {column : Nat} (skip : List Char) {body : List Char} (free : ¬ ['@', '\x7b'] <:+: skip)
      (open_ : '\x7d' ∉ body) : Segments column (skip ++ '@' :: '\x7b' :: body) []
  | closed {column : Nat} (skip : List Char) {inner rest : List Char}
      {found : List (List Char × Nat)} (free : ¬ ['@', '\x7b'] <:+: skip) (first : '\x7d' ∉ inner)
      (later : Segments (column + Text.byteLength skip + 3 + Text.byteLength inner) rest found) :
      Segments column (skip ++ '@' :: '\x7b' :: (inner ++ '\x7d' :: rest))
        ((inner, column + Text.byteLength skip + 2) :: found)

theorem references_skip {skip : List Char} (free : ¬ ['@', '\x7b'] <:+: skip) (column : Nat)
    (cs : List Char) (next : cs.head? ≠ some '\x7b') :
    references column (skip ++ cs) = references (column + Text.byteLength skip) cs := by
  induction skip generalizing column with
  | nil => simp
  | cons c skip ih =>
      rw [List.infix_cons_iff, not_or] at free
      have here : ¬ (c = '@' ∧ (skip ++ cs).head? = some '\x7b') := by
        rintro ⟨rfl, brace⟩
        cases skip with
        | nil => exact next brace
        | cons d skip =>
            obtain rfl : d = '\x7b' := by simpa using brace
            exact free.1 (by simp)
      rw [List.cons_append, references, if_neg here, ih free.2, Text.byteLength_cons, Nat.add_assoc]

theorem references_mark (column : Nat) (body : List Char) :
    references column ('@' :: '\x7b' :: body) =
      if (body.takeWhile fun d => d != '\x7d').length < body.length then
        (body.takeWhile fun d => d != '\x7d', column + 2) ::
          references (column + 3 + Text.byteLength (body.takeWhile fun d => d != '\x7d'))
            (body.drop ((body.takeWhile fun d => d != '\x7d').length + 1))
      else [] := by
  rw [references, if_pos ⟨rfl, rfl⟩]
  rfl

theorem references_of_segments {column : Nat} {cs : List Char} {found : List (List Char × Nat)}
    (segments : Segments column cs found) : references column cs = found := by
  induction segments with
  | @none column cs free =>
      have passed := references_skip free column [] (by simp)
      rwa [List.append_nil, references.eq_1] at passed
  | @unclosed column skip body free open_ =>
      have whole : body.takeWhile (fun d => d != '\x7d') = body := by
        rw [List.takeWhile_eq_self_iff]
        rintro d member
        simpa using fun equal : d = '\x7d' => open_ (equal ▸ member)
      rw [references_skip free column _ (by simp), references_mark, whole, if_neg (Nat.lt_irrefl _)]
  | @closed column skip inner rest found free first later ih =>
      have within : ∀ d ∈ inner, (d != '\x7d') = true := by
        intro d member
        simpa using fun equal : d = '\x7d' => first (equal ▸ member)
      have taken : (inner ++ '\x7d' :: rest).takeWhile (fun d => d != '\x7d') = inner :=
        (Text.Cut.eq ⟨rfl, within, by simp⟩).1
      have dropped : (inner ++ '\x7d' :: rest).drop (inner.length + 1) = rest := by simp
      rw [references_skip free column _ (by simp), references_mark, taken, if_pos (by simp),
        dropped, ih]

theorem Segments.cons {column : Nat} {c : Char} {cs : List Char} {found : List (List Char × Nat)}
    (segments : Segments (column + c.utf8Size) cs found)
    (plain : ¬ (c = '@' ∧ cs.head? = some '\x7b')) : Segments column (c :: cs) found := by
  have longer {skip rest : List Char} (free : ¬ ['@', '\x7b'] <:+: skip)
      (split : cs = skip ++ rest) :
      ¬ ['@', '\x7b'] <:+: c :: skip := by
    rw [List.infix_cons_iff, not_or]
    refine ⟨fun starts => plain ?_, free⟩
    rw [List.cons_prefix_cons] at starts
    obtain ⟨rfl, rest', rfl⟩ := starts
    simp [split]
  have further (skip : List Char) : column + c.utf8Size + Text.byteLength skip =
      column + Text.byteLength (c :: skip) := by
    rw [Text.byteLength_cons, Nat.add_assoc]
  generalize start : column + c.utf8Size = column' at segments
  cases segments with
  | none free => exact .none (longer free (List.append_nil cs).symm)
  | @unclosed _ skip body free open_ => exact .unclosed (c :: skip) (longer free rfl) open_
  | @closed _ skip inner rest found free first later =>
      subst start
      rw [further] at later ⊢
      exact .closed (c :: skip) (longer free rfl) first later

theorem segments_references (column : Nat) (cs : List Char) :
    Segments column cs (references column cs) := by
  induction length : cs.length using Nat.strong_induction_on generalizing column cs with
  | _ n ih =>
  subst length
  cases cs with
  | nil =>
      rw [references.eq_1]
      exact .none (by simp)
  | cons c rest =>
      by_cases mark : c = '@' ∧ rest.head? = some '\x7b'
      · obtain ⟨rfl, brace⟩ := mark
        obtain ⟨body, rfl⟩ := List.head?_eq_some_iff.mp brace
        rw [references_mark]
        split
        · rename_i closes
          obtain ⟨after, split⟩ := exists_close closes
          have dropped : body.drop ((body.takeWhile fun d => d != '\x7d').length + 1) = after := by
            conv => lhs; arg 2; rw [split]
            simp
          have first : '\x7d' ∉ body.takeWhile fun d => d != '\x7d' := fun member =>
            absurd (List.mem_takeWhile_imp member) (by simp)
          rw [dropped]
          generalize (body.takeWhile fun d => d != '\x7d') = inner at *
          subst split
          exact .closed [] (by simp) first (ih _ (by simp; omega) _ after rfl)
        · rename_i open_
          have whole : body.takeWhile (fun d => d != '\x7d') = body :=
            (List.takeWhile_prefix _).eq_of_length_le (Nat.le_of_not_lt open_)
          refine .unclosed [] (by simp) fun member => ?_
          rw [← whole] at member
          exact absurd (List.mem_takeWhile_imp member) (by simp)
      · rw [references, if_neg mark]
        exact (ih rest.length (by simp) _ rest rfl).cons mark

theorem Segments.slices {cs : List Char} {found : List (List Char × Nat)}
    (segments : Segments 0 cs found) (no : Nat) :
    ∀ r ∈ found, (Span.trimmed r.1 no r.2).Slices no cs := by
  rw [← references_of_segments segments]
  intro r member
  obtain ⟨front, back, split, column⟩ := references_split [] cs r member
  rw [column, ← List.nil_append cs, split]
  exact (Span.trims_trimmed no front r.1).slices back

end Block
end ChartLint
