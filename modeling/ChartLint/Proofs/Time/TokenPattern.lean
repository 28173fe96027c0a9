import ChartLint.Proofs.Time.Token
import Mathlib.Computability.Language

/-!
# Patterns of tokens

The texts of the tokens of a kind form a language (`TimeToken.Kind.pattern`), built up from single
characters. They are the texts that are spelled in a shape of the kind
(`TimeToken.spelled_of_mem_pattern`, `TimeToken.Spelled.mem_pattern`).
-/

namespace ChartLint.TimeToken

open Written
open scoped Computability

namespace Form

def one (p : Char → Prop) : Language Char :=
  {cs | ∃ c, p c ∧ cs = [c]}

def mark (c : Char) : Language Char :=
  {[c]}

def many (p : Char → Prop) : Language Char :=
  one p * (one p)∗

def optional (l : Language Char) : Language Char :=
  1 + l

def twoDigits : Language Char :=
  one Line.Digit * one Line.Digit

def decimals : Language Char :=
  mark '.' * many Line.Digit

def offset : Language Char :=
  mark 'z' + (mark '+' + mark '-') * twoDigits * optional (mark ':') * twoDigits

def time : Language Char :=
  twoDigits * mark ':' * twoDigits * optional (mark ':' * twoDigits * optional decimals) *
    optional offset

def date : Language Char :=
  twoDigits * twoDigits * mark '-' * twoDigits *
    optional (mark '-' * twoDigits * optional (mark 't' * time))

def number : Language Char :=
  many Line.Digit * optional decimals

def gap : Language Char :=
  many fun c => c = ' ' ∨ c = '\t'

variable {cs : List Char} {l m : Language Char}

theorem mem_optional : cs ∈ optional l ↔ cs = [] ∨ cs ∈ l := Iff.rfl

theorem mem_mul : cs ∈ l * m ↔ ∃ a ∈ l, ∃ b ∈ m, cs = a ++ b := by
  simp only [Language.mem_mul, eq_comm]

theorem mem_mark_mul {c : Char} : cs ∈ mark c * l ↔ ∃ rest ∈ l, cs = c :: rest := by
  rw [mem_mul]
  constructor
  · rintro ⟨a, rfl, rest, member, rfl⟩
    exact ⟨rest, member, rfl⟩
  · rintro ⟨rest, member, rfl⟩
    exact ⟨[c], rfl, rest, member, rfl⟩

theorem mem_twoDigits : cs ∈ twoDigits ↔ ∃ n, cs = pair n := by
  rw [twoDigits, mem_mul]
  constructor
  · rintro ⟨_, ⟨a, first, rfl⟩, _, ⟨b, second, rfl⟩, rfl⟩
    obtain ⟨n, same⟩ := exists_pair ((Line.digit_iff a).mp first) ((Line.digit_iff b).mp second)
    exact ⟨n, same.symm⟩
  · rintro ⟨n, rfl⟩
    have is (d : Fin 10) : Line.Digit (digit d) := (Line.digit_iff _).mpr (isDigit_digit d)
    exact ⟨_, ⟨_, is _, rfl⟩, _, ⟨_, is _, rfl⟩, rfl⟩

theorem mem_twoDigits_mul : cs ∈ twoDigits * l ↔ ∃ n, ∃ rest ∈ l, cs = pair n ++ rest := by
  simp only [mem_mul, mem_twoDigits]
  constructor
  · rintro ⟨_, ⟨n, rfl⟩, rest, member, rfl⟩
    exact ⟨n, rest, member, rfl⟩
  · rintro ⟨n, rest, member, rfl⟩
    exact ⟨_, ⟨n, rfl⟩, rest, member, rfl⟩

theorem mem_kstar_one {p : Char → Prop} : cs ∈ (one p)∗ ↔ ∀ c ∈ cs, p c := by
  rw [Language.mem_kstar]
  constructor
  · rintro ⟨parts, rfl, single⟩ c member
    obtain ⟨part, inside, member⟩ := List.mem_flatten.mp member
    obtain ⟨d, is, rfl⟩ := single part inside
    rwa [List.mem_singleton.mp member]
  · intro all
    refine ⟨cs.map fun c => [c], ?_, ?_⟩
    · exact (List.flatMap_singleton' cs).symm
    · intro part inside
      obtain ⟨c, member, rfl⟩ := List.mem_map.mp inside
      exact ⟨c, all c member, rfl⟩

theorem mem_many {p : Char → Prop} : cs ∈ many p ↔ cs ≠ [] ∧ ∀ c ∈ cs, p c := by
  rw [many, mem_mul]
  constructor
  · rintro ⟨_, ⟨c, is, rfl⟩, rest, more, rfl⟩
    exact ⟨List.cons_ne_nil _ _, List.forall_mem_cons.mpr ⟨is, mem_kstar_one.mp more⟩⟩
  · rintro ⟨filled, all⟩
    obtain ⟨c, rest, rfl⟩ := List.exists_cons_of_ne_nil filled
    rw [List.forall_mem_cons] at all
    exact ⟨[c], ⟨c, all.1, rfl⟩, rest, mem_kstar_one.mpr all.2, rfl⟩

theorem mem_many_digit : cs ∈ many Line.Digit ↔ ∃ d ds, cs = digits (d :: ds) := by
  simp only [mem_many, Line.digit_iff]
  constructor
  · rintro ⟨filled, all⟩
    obtain ⟨ds, same⟩ := exists_digits cs
    rw [List.takeWhile_eq_self_iff.mpr all] at same
    cases ds with
    | nil => exact absurd same filled
    | cons d ds => exact ⟨d, ds, same⟩
  · rintro ⟨d, ds, rfl⟩
    exact ⟨List.cons_ne_nil _ _, fun _ => isDigit_of_mem⟩

theorem mem_gap : cs ∈ gap ↔ cs ≠ [] ∧ ∀ c ∈ cs, Text.isGap c = true := by
  simp only [gap, mem_many, Text.isGap, Bool.or_eq_true, beq_iff_eq]

theorem mem_optional_decimals : cs ∈ optional decimals ↔ ∃ ds, cs = Written.decimals ds := by
  rw [mem_optional, decimals, mem_mark_mul]
  constructor
  · rintro (rfl | ⟨rest, member, rfl⟩)
    · exact ⟨[], rfl⟩
    · obtain ⟨d, ds, rfl⟩ := mem_many_digit.mp member
      exact ⟨d :: ds, rfl⟩
  · rintro ⟨ds, rfl⟩
    cases ds with
    | nil => exact .inl rfl
    | cons d ds => exact .inr ⟨_, mem_many_digit.mpr ⟨d, ds, rfl⟩, rfl⟩

theorem mem_sign :
    cs ∈ mark '+' + mark '-' ↔ ∃ negative : Bool, cs = [if negative then '-' else '+'] := by
  rw [Language.mem_add]
  constructor
  · rintro (rfl | rfl)
    · exact ⟨false, rfl⟩
    · exact ⟨true, rfl⟩
  · rintro ⟨negative, rfl⟩
    cases negative
    · exact .inl rfl
    · exact .inr rfl

theorem mem_optional_colon :
    cs ∈ optional (mark ':') * twoDigits ↔
      ∃ (colon : Bool) (n : Fin 100), cs = if colon then ':' :: pair n else pair n := by
  rw [mem_mul]
  constructor
  · rintro ⟨a, first, b, second, rfl⟩
    obtain ⟨n, rfl⟩ := mem_twoDigits.mp second
    rcases first with rfl | rfl
    · exact ⟨false, n, rfl⟩
    · exact ⟨true, n, rfl⟩
  · rintro ⟨colon, n, rfl⟩
    cases colon with
    | false => exact ⟨[], .inl rfl, _, mem_twoDigits.mpr ⟨n, rfl⟩, rfl⟩
    | true => exact ⟨[':'], .inr rfl, _, mem_twoDigits.mpr ⟨n, rfl⟩, rfl⟩

theorem mem_offset : cs ∈ offset ↔ ∃ o : WrittenOffset, cs = o.chars := by
  rw [offset, mul_assoc, mul_assoc, Language.mem_add, mem_mul]
  constructor
  · rintro (rfl | ⟨_, sign, _, digits, rfl⟩)
    · exact ⟨.zulu, rfl⟩
    · obtain ⟨negative, rfl⟩ := mem_sign.mp sign
      obtain ⟨hours, _, rest, rfl⟩ := mem_twoDigits_mul.mp digits
      obtain ⟨colon, minutes, rfl⟩ := mem_optional_colon.mp rest
      exact ⟨.signed negative colon hours minutes, rfl⟩
  · rintro ⟨o, rfl⟩
    cases o with
    | zulu => exact .inl rfl
    | signed negative colon hours minutes =>
        refine .inr ⟨_, mem_sign.mpr ⟨negative, rfl⟩, _, mem_twoDigits_mul.mpr ?_, rfl⟩
        exact ⟨hours, _, mem_optional_colon.mpr ⟨colon, minutes, rfl⟩, rfl⟩

theorem mem_optional_offset : cs ∈ optional offset ↔ ∃ o, cs = WrittenClock.offsetChars o := by
  rw [mem_optional, mem_offset]
  constructor
  · rintro (rfl | ⟨o, rfl⟩)
    · exact ⟨none, rfl⟩
    · exact ⟨some o, rfl⟩
  · rintro ⟨o, rfl⟩
    cases o with
    | none => exact .inl rfl
    | some o => exact .inr ⟨o, rfl⟩

theorem mem_optional_second :
    cs ∈ optional (mark ':' * (twoDigits * optional decimals)) ↔
      ∃ s, cs = WrittenClock.secondChars s := by
  rw [mem_optional, mem_mark_mul]
  constructor
  · rintro (rfl | ⟨_, member, rfl⟩)
    · exact ⟨none, rfl⟩
    · obtain ⟨second, _, places, rfl⟩ := mem_twoDigits_mul.mp member
      obtain ⟨ds, rfl⟩ := mem_optional_decimals.mp places
      exact ⟨some (second, ds), rfl⟩
  · rintro ⟨s, rfl⟩
    cases s with
    | none => exact .inl rfl
    | some s =>
        refine .inr ⟨_, mem_twoDigits_mul.mpr ⟨s.1, _, ?_, rfl⟩, rfl⟩
        exact mem_optional_decimals.mpr ⟨s.2, rfl⟩

theorem mem_time : cs ∈ time ↔ ∃ c : WrittenClock, cs = c.chars := by
  simp only [time, mul_assoc, mem_twoDigits_mul, mem_mark_mul]
  constructor
  · rintro ⟨hour, _, ⟨_, ⟨minute, _, tail, rfl⟩, rfl⟩, rfl⟩
    obtain ⟨_, seconds, _, shift, rfl⟩ := mem_mul.mp tail
    obtain ⟨second, rfl⟩ := mem_optional_second.mp seconds
    obtain ⟨offset, rfl⟩ := mem_optional_offset.mp shift
    refine ⟨⟨hour, minute, second, offset⟩, ?_⟩
    simp [WrittenClock.chars, WrittenClock.body]
  · rintro ⟨⟨hour, minute, second, offset⟩, rfl⟩
    have tail := mem_mul.mpr ⟨_, mem_optional_second.mpr ⟨second, rfl⟩, _,
      mem_optional_offset.mpr ⟨offset, rfl⟩, rfl⟩
    refine ⟨hour, _, ⟨_, ⟨minute, _, tail, rfl⟩, rfl⟩, ?_⟩
    simp [WrittenClock.chars, WrittenClock.body]

theorem mem_date_iff : cs ∈ date ↔
    ∃ y month, ∃ tail ∈ optional (mark '-' * (twoDigits * optional (mark 't' * time))),
      cs = year y ++ '-' :: (pair month ++ tail) := by
  simp only [date, mul_assoc, mem_twoDigits_mul, mem_mark_mul]
  constructor
  · rintro ⟨century, _, ⟨inCentury, _, ⟨_, ⟨month, tail, member, rfl⟩, rfl⟩, rfl⟩, rfl⟩
    obtain ⟨y, same⟩ := exists_year century inCentury
    exact ⟨y, month, tail, member, by rw [same, List.append_assoc]⟩
  · rintro ⟨y, month, tail, member, rfl⟩
    exact ⟨_, _, ⟨_, _, ⟨_, ⟨month, tail, member, rfl⟩, rfl⟩, rfl⟩, rfl⟩

theorem mem_date : cs ∈ date ↔
    (∃ d : WrittenDate, cs = d.chars) ∨
      ∃ y month day, ∃ c : WrittenClock,
        cs = WrittenDate.chars ⟨y, month, some day⟩ ++ 't' :: c.chars := by
  simp only [mem_date_iff, mem_optional, mem_mark_mul, mem_twoDigits_mul, mem_time]
  constructor
  · rintro ⟨y, month, _, rfl | ⟨_, ⟨day, _, rfl | ⟨_, ⟨c, rfl⟩, rfl⟩, rfl⟩, rfl⟩, rfl⟩
    · exact .inl ⟨⟨y, month, none⟩, rfl⟩
    · exact .inl ⟨⟨y, month, some day⟩, by simp [WrittenDate.chars, WrittenDate.dayChars]⟩
    · exact .inr ⟨y, month, day, c, by simp [WrittenDate.chars, WrittenDate.dayChars]⟩
  · rintro (⟨⟨y, month, _ | day⟩, rfl⟩ | ⟨y, month, day, c, rfl⟩)
    · exact ⟨y, month, [], .inl rfl, rfl⟩
    · refine ⟨y, month, _, .inr ⟨_, ⟨day, [], .inl rfl, rfl⟩, rfl⟩, ?_⟩
      simp [WrittenDate.chars, WrittenDate.dayChars]
    · refine ⟨y, month, _, .inr ⟨_, ⟨day, _, .inr ⟨_, ⟨c, rfl⟩, rfl⟩, rfl⟩, rfl⟩, ?_⟩
      simp [WrittenDate.chars, WrittenDate.dayChars]

theorem mem_number : cs ∈ number ↔ ∃ n : WrittenNumber, cs = n.chars := by
  rw [number, mem_mul]
  constructor
  · rintro ⟨_, whole, _, places, rfl⟩
    obtain ⟨first, more, rfl⟩ := mem_many_digit.mp whole
    obtain ⟨ds, rfl⟩ := mem_optional_decimals.mp places
    exact ⟨⟨first, more, ds⟩, rfl⟩
  · rintro ⟨⟨first, more, places⟩, rfl⟩
    exact ⟨_, mem_many_digit.mpr ⟨first, more, rfl⟩, _, mem_optional_decimals.mpr ⟨places, rfl⟩,
      rfl⟩

end Form

def Kind.pattern : Kind → Language Char
  | .date => Form.date
  | .time => Form.time
  | .number => Form.number
  | .word => Form.many fun c => Line.Letter c ∨ c = '_'
  | .plus => Form.mark '+'
  | .minus => Form.mark '-'
  | .star => Form.mark '*'

theorem inWord_iff (c : Char) : inWord c = true ↔ Line.Letter c ∨ c = '_' := by
  simp [inWord, Line.letter_iff]

theorem spelled_of_mem_pattern {kind : Kind} {cs : List Char} (member : cs ∈ kind.pattern) :
    Spelled ⟨kind, String.ofList cs⟩ := by
  cases kind with
  | date =>
      rcases Form.mem_date.mp member with ⟨d, rfl⟩ | ⟨y, month, day, c, rfl⟩
      · exact .date d
      · exact .stamp y month day c
  | time =>
      obtain ⟨c, rfl⟩ := Form.mem_time.mp member
      exact .time c
  | number =>
      obtain ⟨n, rfl⟩ := Form.mem_number.mp member
      exact .number n
  | word =>
      obtain ⟨filled, letters⟩ := Form.mem_many.mp member
      exact .word filled fun c inside => (inWord_iff c).mpr (letters c inside)
  | plus =>
      cases member
      exact .plus
  | minus =>
      cases member
      exact .minus
  | star =>
      cases member
      exact .star

theorem Spelled.mem_pattern {token : TimeToken} (spelled : Spelled token) :
    token.text.toList ∈ token.kind.pattern := by
  cases spelled with
  | date d =>
      rw [String.toList_ofList]
      exact Form.mem_date.mpr (.inl ⟨d, rfl⟩)
  | stamp y month day c =>
      rw [String.toList_ofList]
      exact Form.mem_date.mpr (.inr ⟨y, month, day, c, rfl⟩)
  | time c =>
      rw [String.toList_ofList]
      exact Form.mem_time.mpr ⟨c, rfl⟩
  | number n =>
      rw [String.toList_ofList]
      exact Form.mem_number.mpr ⟨n, rfl⟩
  | word filled letters =>
      rw [String.toList_ofList]
      exact Form.mem_many.mpr ⟨filled, fun c inside => (inWord_iff c).mp (letters c inside)⟩
  | plus => rfl
  | minus => rfl
  | star => rfl

end ChartLint.TimeToken
