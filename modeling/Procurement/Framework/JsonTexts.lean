/-
  Procurement.Framework.JsonTexts
  ───────────────────────────────
  **WHAT IS WRITTEN IS READ BACK.**

  `parse_render`: every value is read back from its text, in every style.  The
  proof follows the text from the inside out: digits, the escapes of a string,
  and then values by induction, an array through its items and an object through
  its members.  A value is read back wherever it stands (`ReadsBack`), as long as
  what follows does not go on with the digits of a number (`Stops`).

  `printable_render`: a text is one line, and with escapes it is ASCII.
-/
import Mathlib.Data.List.Basic
import Procurement.Framework.Json

namespace Procurement.Framework

namespace Json

/-! ## §1. Numbers are read back. -/

/-- What may follow a number. -/
def Stops (rest : List Char) : Prop := ∀ c ∈ rest.head?, c.isDigit = false ∧ c ≠ '.'

/-- The end of the text ends a number. -/
theorem stops_nil : Stops [] := fun c hc => absurd hc (by simp)

/-- So does a character that no number goes on with. -/
theorem stops_cons {c : Char} {s : List Char} (h : c.isDigit = false ∧ c ≠ '.') :
    Stops (c :: s) := by
  intro d hd
  obtain rfl : c = d := by simpa using hd
  exact h

/-- The digits in front of a text that goes on without one. -/
theorem span_digits {ds rest : List Char} (hds : ∀ c ∈ ds, c.isDigit = true)
    (hrest : ∀ c ∈ rest.head?, c.isDigit = false) :
    (ds ++ rest).takeWhile Char.isDigit = ds ∧ (ds ++ rest).dropWhile Char.isDigit = rest := by
  have hstop : rest.takeWhile Char.isDigit = [] ∧ rest.dropWhile Char.isDigit = rest := by
    cases rest with
    | nil => exact ⟨rfl, rfl⟩
    | cons c s =>
        have hc : c.isDigit = false := hrest c rfl
        exact ⟨by rw [List.takeWhile_cons, hc]; rfl, by rw [List.dropWhile_cons, hc]; rfl⟩
  rw [List.takeWhile_append_of_pos hds, List.dropWhile_append_of_pos hds, hstop.1, hstop.2,
    List.append_nil]
  exact ⟨rfl, rfl⟩

/-- The digits of a number are digits. -/
theorem isDigit_toDigits {n : Nat} : ∀ c ∈ Nat.toDigits 10 n, c.isDigit = true :=
  fun _ hc => Nat.isDigit_of_mem_toDigits (by decide) (by decide) hc

/-- A positive number has no zero in front. -/
theorem toDigits_cons (n : Nat) (hn : 0 < n) :
    ∃ c ds, Nat.toDigits 10 n = c :: ds ∧ c ≠ '0' := by
  induction n using Nat.strongRecOn with
  | ind n ih =>
    by_cases hlt : n < 10
    · exact ⟨_, [], Nat.toDigits_of_lt_base hlt, fun h => absurd (Nat.digitChar_eq_zero.mp h) (by omega)⟩
    · obtain ⟨c, ds, hds, hc⟩ := ih (n / 10) (by omega) (by omega)
      refine ⟨c, ds ++ [Nat.digitChar (n % 10)], ?_, hc⟩
      rw [Nat.toDigits_of_base_le (by decide) (Nat.le_of_not_lt hlt), hds, List.cons_append]

/-- A whole number is read up to its last digit. -/
theorem whole_toDigits (n : Nat) {rest : List Char} (h : ∀ c ∈ rest.head?, c.isDigit = false) :
    whole (Nat.toDigits 10 n ++ rest) = some (n, rest) := by
  obtain ⟨htake, hdrop⟩ := span_digits (isDigit_toDigits (n := n)) h
  rcases Nat.eq_zero_or_pos n with hn | hn
  · subst hn
    rfl
  · obtain ⟨c, ds, hds, hc⟩ := toDigits_cons n hn
    have hvalue : Nat.ofDigitChars 10 (c :: ds) 0 = n := by
      rw [← hds]
      exact Nat.ofDigitChars_ten_toDigits
    rw [hds] at htake hdrop ⊢
    unfold whole
    split
    · -- a zero in front
      next hzero => exact absurd (List.cons.inj hzero).1 hc
    · rw [htake, hdrop]
      simp only [hvalue]

/-- A digit is read back. -/
theorem digit_digitChar (k : Fin 10) : digit (Nat.digitChar k.val) = some k := by
  revert k
  decide

/-- So are the digits of a fraction. -/
theorem filterMap_digit (ks : List (Fin 10)) :
    (ks.map fun k => Nat.digitChar k.val).filterMap digit = ks := by
  rw [List.filterMap_map]
  exact (List.filterMap_congr fun k _ => digit_digitChar k).trans List.filterMap_some

/-- **An integer is read back**, with its sign, when no digit or dot follows. -/
theorem number_int (negative : Bool) (n : Nat) {rest : List Char} (h : Stops rest) :
    number negative (Nat.toDigits 10 n ++ rest)
      = some (.int (if negative then -n else n), rest) := by
  unfold number
  rw [whole_toDigits n fun c hc => (h c hc).1]
  cases rest with
  | nil => rfl
  | cons c s =>
      have hc : c ≠ '.' := (h c rfl).2
      simp only [Option.bind_eq_bind, Option.bind_some]
      split
      · next heq => exact absurd (List.cons.inj heq).1 hc
      · rfl

/-- **A float is read back**, with all its places. -/
theorem number_float (d : Decimal) {rest : List Char} (h : Stops rest) :
    number d.negative
        (Nat.toDigits 10 d.whole ++ '.' :: (d.fraction.map fun k => Nat.digitChar k.val) ++ rest)
      = some (.float d, rest) := by
  have hdigits : ∀ c ∈ d.fraction.map fun k => Nat.digitChar k.val, c.isDigit = true := by
    intro c hc
    obtain ⟨k, _, rfl⟩ := List.mem_map.mp hc
    rw [Nat.isDigit_digitChar]
    exact decide_eq_true k.isLt
  obtain ⟨htake, hdrop⟩ := span_digits hdigits fun c hc => (h c hc).1
  unfold number
  have hpoint : ∀ t : List Char, ∀ c ∈ ('.' :: t).head?, c.isDigit = false := by
    intro t c hc
    obtain rfl : '.' = c := by simpa using hc
    decide
  rw [List.append_assoc, List.cons_append, whole_toDigits d.whole (hpoint _)]
  simp only [Option.bind_eq_bind, Option.bind_some, htake, hdrop,
    filterMap_digit, d.fraction_ne, ne_eq, not_false_eq_true, dite_true]

/-! ## §2. Strings are read back. -/

/-- A hexadecimal digit is read back. -/
theorem hexValue_digitChar : ∀ k, k < 16 → hexValue (Nat.digitChar k) = some k := by decide

/-- A code unit is read back from its four digits. -/
theorem unit_hex4 {n : Nat} (h : n < 0x10000) (s : List Char) :
    unit (hex4 n ++ s) = some (n, s) := by
  have hmod : ∀ m, hexValue (Nat.digitChar (m % 16)) = some (m % 16) :=
    fun m => hexValue_digitChar _ (Nat.mod_lt m (by decide))
  show unit (_ :: _ :: _ :: _ :: s) = _
  unfold unit
  simp only [hmod, Option.bind_eq_bind, Option.bind_some]
  rw [show 4096 * (n / 4096 % 16) + 256 * (n / 256 % 16) + 16 * (n / 16 % 16) + n % 16 = n by omega]

/-- A character is no surrogate. -/
theorem toNat_range (c : Char) : c.toNat < 0xD800 ∨ 0xE000 ≤ c.toNat ∧ c.toNat < 0x110000 := by
  rcases c.valid with h | ⟨h1, h2⟩
  · exact Or.inl h
  · exact Or.inr ⟨h1, h2⟩

/-- A character of one code unit is read back from its escape. -/
theorem unicode_unit {c : Char} (h : c.toNat < 0x10000) (s : List Char) :
    unicode (hex4 c.toNat ++ s) = some (c, s) := by
  have hrange := toNat_range c
  unfold unicode
  rw [unit_hex4 h]
  simp only [Option.bind_eq_bind, Option.bind_some, Char.ofNat_toNat]
  rw [if_neg (by omega), if_neg (by omega)]

/-- Two surrogates are one character. -/
theorem unicode_surrogates {u v : Nat} (hu : 0xD800 ≤ u ∧ u < 0xDC00)
    (hv : 0xDC00 ≤ v ∧ v < 0xE000) (s : List Char) :
    unicode (hex4 u ++ (unicodeEscape v ++ s))
      = some (Char.ofNat (0x10000 + (u - 0xD800) * 1024 + (v - 0xDC00)), s) := by
  unfold unicode
  rw [unit_hex4 (by omega)]
  simp only [Option.bind_eq_bind, Option.bind_some]
  rw [if_pos hu]
  unfold unicodeEscape
  simp only [List.cons_append]
  rw [unit_hex4 (by omega)]
  simp only [Option.bind_some]
  rw [if_pos hv]

/-- A character of two is read back from its surrogates. -/
theorem unicode_pair {c : Char} (h : 0x10000 ≤ c.toNat) (s : List Char) :
    unicode (hex4 (0xD800 + (c.toNat - 0x10000) / 1024)
        ++ (unicodeEscape (0xDC00 + (c.toNat - 0x10000) % 1024) ++ s)) = some (c, s) := by
  have hrange := toNat_range c
  rw [unicode_surrogates (by omega) (by omega)]
  have hback : 0x10000 + (0xD800 + (c.toNat - 0x10000) / 1024 - 0xD800) * 1024
      + (0xDC00 + (c.toNat - 0x10000) % 1024 - 0xDC00) = c.toNat := by omega
  rw [hback, Char.ofNat_toNat]

/-- The short escapes, one by one. -/
theorem character_short {c d : Char} (h : List.lookup c shortEscapes = some d) (s : List Char) :
    character ('\\' :: d :: s) = some (c, s) := by
  have hall : ∀ e ∈ shortEscapes, character ('\\' :: e.2 :: s) = some (e.1, s) := by
    simp [shortEscapes, character, unescape, List.lookup_cons]
  obtain ⟨l₁, l₂, hl, _⟩ := List.lookup_eq_some_iff.mp h
  exact hall (c, d) (hl ▸ by simp)

/-- A character that stands for itself. -/
theorem character_plain {c : Char} (hc : c ≠ '\\') (h : ¬ c.toNat < 32) (s : List Char) :
    character (c :: s) = some (c, s) := by
  rw [character]
  · exact if_neg h
  -- the escapes begin with a backslash
  · exact fun t ht _ => hc ht
  · exact fun d t ht _ => hc ht
  · exact fun ht _ => hc ht

/-- What has no short escape is no quote and no backslash. -/
theorem lookup_shortEscapes {c : Char} (h : List.lookup c shortEscapes = none) :
    c ≠ '"' ∧ c ≠ '\\' := by
  constructor <;> (rintro rfl; exact absurd h (by decide))

/-- **Every escape is read back.** -/
theorem character_escapeChar (st : Style) (c : Char) (s : List Char) :
    character (escapeChar st c ++ s) = some (c, s) := by
  unfold escapeChar
  cases hshort : List.lookup c shortEscapes with
  | some d => exact character_short hshort s
  | none =>
      dsimp only
      by_cases hcontrol : c.toNat < 32
      · rw [if_pos hcontrol]
        exact unicode_unit (by omega) s
      · rw [if_neg hcontrol]
        by_cases hascii : st.ascii ∧ 126 < c.toNat
        · rw [if_pos hascii]
          by_cases hbmp : c.toNat < 0x10000
          · rw [if_pos hbmp]
            exact unicode_unit hbmp s
          · rw [if_neg hbmp, List.append_assoc]
            exact unicode_pair (Nat.le_of_not_lt hbmp) s
        · rw [if_neg hascii]
          exact character_plain (lookup_shortEscapes hshort).2 hcontrol s

/-- A character is written with a backslash in front, or as it is. -/
theorem escapeChar_cons (st : Style) (c : Char) :
    ∃ d ds, escapeChar st c = d :: ds ∧ d ≠ '"' := by
  unfold escapeChar
  cases hshort : List.lookup c shortEscapes with
  | some d => exact ⟨'\\', _, rfl, by decide⟩
  | none =>
      dsimp only
      split
      · exact ⟨'\\', _, rfl, by decide⟩
      · split
        · split <;> exact ⟨'\\', _, rfl, by decide⟩
        · exact ⟨c, [], rfl, (lookup_shortEscapes hshort).1⟩

/-- Escaping makes no text shorter, so that the text is fuel enough to read it. -/
theorem length_escape (st : Style) (cs : List Char) : cs.length ≤ (escape st cs).length := by
  induction cs with
  | nil => exact Nat.zero_le _
  | cons c cs ih =>
      obtain ⟨d, ds, hd, _⟩ := escapeChar_cons st c
      show _ ≤ (escapeChar st c ++ escape st cs).length
      rw [List.length_append, hd]
      simp only [List.length_cons]
      omega

/-- **Escaped characters are read back** up to the closing quote. -/
theorem characters_escape (st : Style) (cs rest : List Char) (n : Nat) (h : cs.length < n) :
    characters n (escape st cs ++ '"' :: rest) = some (cs, rest) := by
  induction cs generalizing n with
  | nil =>
      obtain ⟨m, rfl⟩ := Nat.exists_eq_succ_of_ne_zero (by omega : n ≠ 0)
      rfl
  | cons c cs ih =>
      obtain ⟨m, rfl⟩ := Nat.exists_eq_succ_of_ne_zero (by omega : n ≠ 0)
      have hchar := character_escapeChar st c (escape st cs ++ '"' :: rest)
      have hstep : ∀ s : List Char, characters (m + 1) (escapeChar st c ++ s)
          = (character (escapeChar st c ++ s)).bind fun r =>
              (characters m r.2).bind fun q => some (r.1 :: q.1, q.2) := by
        intro s
        obtain ⟨d, ds, hd, hquote⟩ := escapeChar_cons st c
        rw [hd, List.cons_append, characters]
        · rfl
        · intro t ht
          exact hquote (List.cons.inj ht).1
      show characters (m + 1) ((escapeChar st c ++ escape st cs) ++ '"' :: rest) = _
      rw [List.append_assoc, hstep, hchar, Option.bind_some, ih m (by simpa using h),
        Option.bind_some]

/-- A string is read back. -/
theorem string_quote (st : Style) (s : String) (rest : List Char) :
    string (escape st s.toList ++ '"' :: rest) = some (s, rest) := by
  have hlen := length_escape st s.toList
  unfold string
  rw [characters_escape st s.toList rest _ (by rw [List.length_append]; omega)]
  simp only [Option.map_some, String.ofList_toList]

/-! ## §3. Values are read back. -/

/-- Nothing is skipped in front of a character that is no blank. -/
theorem skip_cons {c : Char} {s : List Char} (h : isBlank c = false) : skip (c :: s) = c :: s := by
  unfold skip
  rw [List.dropWhile_cons, h]
  rfl

/-- The gap of a style is skipped. -/
theorem skip_gap (st : Style) (s : List Char) : skip (st.gap ++ s) = skip s := by
  unfold Style.gap
  split <;> rfl

/-- A digit is none of the other characters a value begins with. -/
theorem digit_apart {c d : Char} (h : c.isDigit = true) (hd : d.isDigit = false) : c ≠ d := by
  rintro rfl
  exact absurd h (by simp [hd])

/-- A digit is no blank. -/
theorem not_blank_digit {c : Char} (h : c.isDigit = true) : isBlank c = false := by
  have hne : ∀ d ∈ [' ', '\t', '\n', '\r'], c ≠ d := by
    intro d hd
    refine digit_apart h ?_
    simp only [List.mem_cons, List.not_mem_nil, or_false] at hd
    rcases hd with rfl | rfl | rfl | rfl <;> rfl
  simp only [List.mem_cons, List.not_mem_nil, or_false, forall_eq_or_imp, forall_eq] at hne
  simp [isBlank, hne]

/-- A number has a first digit. -/
theorem toDigits_head (n : Nat) : ∃ c ds, Nat.toDigits 10 n = c :: ds ∧ c.isDigit = true := by
  cases h : Nat.toDigits 10 n with
  | nil => exact absurd h Nat.toDigits_ne_nil
  | cons c ds => exact ⟨c, ds, rfl, isDigit_toDigits c (h ▸ List.mem_cons_self ..)⟩

/-- What a value begins with. -/
theorem render_cons (st : Style) (v : Json) :
    ∃ c s, render st v = c :: s ∧ isBlank c = false ∧ c ≠ ']' := by
  have hnumber : ∀ (negative : Bool) (n : Nat) (t : List Char),
      ∃ c s, sign negative ++ Nat.toDigits 10 n ++ t = c :: s ∧ isBlank c = false ∧ c ≠ ']' := by
    intro negative n t
    cases negative with
    | true => exact ⟨'-', _, rfl, by decide, by decide⟩
    | false =>
        obtain ⟨c, ds, hds, hc⟩ := toDigits_head n
        exact ⟨c, ds ++ t, by rw [hds]; rfl, not_blank_digit hc, digit_apart hc (by decide)⟩
  cases v with
  | null => exact ⟨'n', _, rfl, by decide, by decide⟩
  | bool b => cases b <;> exact ⟨_, _, rfl, by decide, by decide⟩
  | int i =>
      obtain ⟨c, s, h⟩ := hnumber (decide (i < 0)) i.natAbs []
      rw [List.append_nil] at h
      exact ⟨c, s, h⟩
  | float d => exact hnumber d.negative d.whole _
  | str s => exact ⟨'"', _, rfl, by decide, by decide⟩
  | arr vs => exact ⟨'[', _, rfl, by decide, by decide⟩
  | obj ms => exact ⟨'{', _, rfl, by decide, by decide⟩

/-- A number without a sign. -/
theorem value_number (n : Nat) {c : Char} {s : List Char} (h : c.isDigit = true) :
    value (n + 1) (c :: s) = number false (c :: s) := by
  rw [value, skip_cons (not_blank_digit h)]
  split
  case h_8 heq => rfl
  -- the other cases begin with a character that is no digit
  all_goals
    rename_i heq
    exact absurd (List.cons.inj heq).1 (digit_apart h (by decide))

/-- A number is its sign and what `number` reads. -/
theorem value_sign (n : Nat) (negative : Bool) (k : Nat) (t : List Char) :
    value (n + 1) (sign negative ++ Nat.toDigits 10 k ++ t)
      = number negative (Nat.toDigits 10 k ++ t) := by
  cases negative with
  | true => rfl
  | false =>
      obtain ⟨c, ds, hds, hc⟩ := toDigits_head k
      show value (n + 1) (Nat.toDigits 10 k ++ t) = _
      rw [hds]
      exact value_number n hc

/-- Blanks in front of a value. -/
theorem value_gap (st : Style) (n : Nat) (s : List Char) : value n (st.gap ++ s) = value n s := by
  cases n with
  | zero => rfl
  | succ n => rw [value, value, skip_gap]

/-- Items may stand behind a gap. -/
theorem items_gap (st : Style) (n : Nat) (s : List Char) : items n (st.gap ++ s) = items n s := by
  cases n with
  | zero => rfl
  | succ n => rw [items, items, value_gap]

/-- So may members. -/
theorem members_gap (st : Style) (n : Nat) (s : List Char) :
    members n (st.gap ++ s) = members n s := by
  cases n with
  | zero => rfl
  | succ n => rw [members, members, skip_gap]

/-- An array that is not empty. -/
theorem value_arr (n : Nat) {c : Char} {s : List Char} (hblank : isBlank c = false)
    (hclose : c ≠ ']') :
    value (n + 1) ('[' :: c :: s) = (items n (c :: s)).map fun r => (Json.arr r.1, r.2) := by
  have hbracket : skip ('[' :: c :: s) = '[' :: c :: s := skip_cons rfl
  unfold value
  simp only [hbracket, skip_cons hblank]
  split
  · next heq => exact absurd (List.cons.inj heq).1 hclose
  · rfl

/-- An object that is not empty. -/
theorem value_obj (n : Nat) (s : List Char) :
    value (n + 1) ('{' :: '"' :: s)
      = (members n ('"' :: s)).map fun r => (Json.obj r.1, r.2) := rfl

/-- The last item is followed by the bracket. -/
theorem items_last {n : Nat} {s rest : List Char} {v : Json} (h : value n s = some (v, ']' :: rest)) :
    items (n + 1) s = some ([v], rest) := by
  rw [items, h]
  rfl

/-- Any other one is followed by a comma, and by more items. -/
theorem items_more {n : Nat} {s t rest : List Char} {v : Json} {vs : List Json}
    (h : value n s = some (v, ',' :: t)) (ht : items n t = some (vs, rest)) :
    items (n + 1) s = some (v :: vs, rest) := by
  rw [items, h]
  show (items n t).bind _ = _
  rw [ht]
  rfl

section
variable {n : Nat} {s t rest : List Char} {k : String} {v : Json}

/-- The last member is followed by the brace. -/
theorem members_last (hk : string s = some (k, ':' :: t)) (h : value n t = some (v, '}' :: rest)) :
    members (n + 1) ('"' :: s) = some ([(k, v)], rest) := by
  show (string s).bind _ = _
  rw [hk]
  show (value n t).bind _ = _
  rw [h]
  rfl

/-- Any other one is followed by a comma, and by more members. -/
theorem members_more {u : List Char} {ms : List (String × Json)} (hk : string s = some (k, ':' :: t))
    (h : value n t = some (v, ',' :: u)) (hu : members n u = some (ms, rest)) :
    members (n + 1) ('"' :: s) = some ((k, v) :: ms, rest) := by
  show (string s).bind _ = _
  rw [hk]
  show (value n t).bind _ = _
  rw [h]
  show (members n u).bind _ = _
  rw [hu]
  rfl

end

/-- Items begin like their first value. -/
theorem renderItems_cons (st : Style) (v : Json) (vs : List Json) :
    ∃ t, renderItems st (v :: vs) = render st v ++ t := by
  cases vs with
  | nil => exact ⟨_, rfl⟩
  | cons w vs => exact ⟨_, List.append_assoc ..⟩

/-- Members begin with a quote. -/
theorem renderMembers_cons (st : Style) (m : String × Json) (ms : List (String × Json)) :
    ∃ t, renderMembers st (m :: ms) = '"' :: t := by
  cases ms <;> exact ⟨_, rfl⟩

/-- The value is read back wherever it stands. -/
def ReadsBack (st : Style) (v : Json) : Prop :=
  ∀ (n : Nat) (rest : List Char), (render st v).length ≤ n → Stops rest →
    value (n + 1) (render st v ++ rest) = some (v, rest)

/-- **Items are read back** when each of them is. -/
theorem items_render (st : Style) (v : Json) (vs : List Json) (h : ∀ w ∈ v :: vs, ReadsBack st w)
    (n : Nat) (rest : List Char) (hn : (renderItems st (v :: vs)).length ≤ n) :
    items (n + 1) (renderItems st (v :: vs) ++ rest) = some (v :: vs, rest) := by
  induction vs generalizing v n with
  | nil =>
      have hlen : (render st v ++ [']']).length ≤ n := hn
      rw [List.length_append, List.length_singleton] at hlen
      obtain ⟨m, rfl⟩ := Nat.exists_eq_succ_of_ne_zero (by omega : n ≠ 0)
      have hv := h v (List.mem_cons_self ..) m (']' :: rest) (by omega) (stops_cons (by decide))
      refine items_last ?_
      rw [← hv]
      exact congrArg (value (m + 1)) (List.append_assoc ..)
  | cons w vs ih =>
      have hlen : (render st v ++ ',' :: st.gap ++ renderItems st (w :: vs)).length ≤ n := hn
      simp only [List.length_append, List.length_cons] at hlen
      obtain ⟨m, rfl⟩ := Nat.exists_eq_succ_of_ne_zero (by omega : n ≠ 0)
      have hv := h v (List.mem_cons_self ..) m
        (',' :: (st.gap ++ (renderItems st (w :: vs) ++ rest))) (by omega) (stops_cons (by decide))
      refine items_more (t := st.gap ++ (renderItems st (w :: vs) ++ rest)) ?_ ?_
      · rw [← hv]
        refine congrArg (value (m + 1)) ?_
        show render st v ++ ',' :: st.gap ++ renderItems st (w :: vs) ++ rest = _
        simp only [List.append_assoc, List.cons_append]
      · rw [items_gap]
        exact ih w (fun u hu => h u (List.mem_cons_of_mem _ hu)) m (by omega)

/-- **Members are read back** when each of their values is. -/
theorem members_render (st : Style) (entry : String × Json) (ms : List (String × Json))
    (h : ∀ m ∈ entry :: ms, ReadsBack st m.2) (n : Nat) (rest : List Char)
    (hn : (renderMembers st (entry :: ms)).length ≤ n) :
    members (n + 1) (renderMembers st (entry :: ms) ++ rest) = some (entry :: ms, rest) := by
  induction ms generalizing entry n with
  | nil =>
      obtain ⟨k, v⟩ := entry
      have hlen : (quote st k ++ ':' :: st.gap ++ render st v ++ ['}']).length ≤ n := hn
      simp only [List.length_append, List.length_cons] at hlen
      obtain ⟨m, rfl⟩ := Nat.exists_eq_succ_of_ne_zero (by omega : n ≠ 0)
      have hread : ReadsBack st v := h (k, v) (List.mem_cons_self ..)
      have hv := hread m ('}' :: rest) (by omega) (stops_cons (by decide))
      have hk := string_quote st k (':' :: (st.gap ++ (render st v ++ '}' :: rest)))
      -- the last member: its key, the colon, its value and the closing brace
      have htext : renderMembers st [(k, v)] ++ rest
          = '"' :: (escape st k.toList ++ '"' :: ':' :: (st.gap ++ (render st v ++ '}' :: rest))) := by
        show quote st k ++ ':' :: st.gap ++ render st v ++ ['}'] ++ rest = _
        simp only [quote, List.append_assoc, List.cons_append, List.nil_append]
      rw [htext]
      refine members_last hk ?_
      rw [value_gap, hv]
  | cons w ms ih =>
      obtain ⟨k, v⟩ := entry
      have hlen : (quote st k ++ ':' :: st.gap ++ render st v ++ ',' :: st.gap
          ++ renderMembers st (w :: ms)).length ≤ n := hn
      simp only [List.length_append, List.length_cons] at hlen
      obtain ⟨m, rfl⟩ := Nat.exists_eq_succ_of_ne_zero (by omega : n ≠ 0)
      have hread : ReadsBack st v := h (k, v) (List.mem_cons_self ..)
      have hv := hread m (',' :: (st.gap ++ (renderMembers st (w :: ms) ++ rest))) (by omega)
        (stops_cons (by decide))
      have hk := string_quote st k
        (':' :: (st.gap ++ (render st v ++ ',' :: (st.gap ++ (renderMembers st (w :: ms) ++ rest)))))
      have htext : renderMembers st ((k, v) :: w :: ms) ++ rest
          = '"' :: (escape st k.toList ++ '"' :: ':' :: (st.gap ++ (render st v
            ++ ',' :: (st.gap ++ (renderMembers st (w :: ms) ++ rest))))) := by
        show quote st k ++ ':' :: st.gap ++ render st v ++ ',' :: st.gap
          ++ renderMembers st (w :: ms) ++ rest = _
        simp only [quote, List.append_assoc, List.cons_append, List.nil_append]
      rw [htext]
      -- behind the comma the induction reads the rest
      refine members_more hk (u := st.gap ++ (renderMembers st (w :: ms) ++ rest)) ?_ ?_
      · rw [value_gap, hv]
      · rw [members_gap]
        exact ih w (fun u hu => h u (List.mem_cons_of_mem _ hu)) m (by omega)

/-- **A value that is written is read back.** -/
theorem value_render (st : Style) (v : Json) : ReadsBack st v := by
  induction v using Json.induct with
  | null => exact fun n rest _ _ => rfl
  | bool b => cases b <;> exact fun n rest _ _ => rfl
  | int i =>
      intro n rest _ hrest
      show value (n + 1) (sign _ ++ Nat.toDigits 10 i.natAbs ++ rest) = _
      -- `rest` starts with no digit, so the number ends where it was written
      rw [value_sign, number_int _ _ hrest]
      by_cases hi : i < 0
      · rw [decide_eq_true hi, if_pos rfl, show -(i.natAbs : Int) = i by omega]
      · rw [decide_eq_false hi, if_neg Bool.false_ne_true, show (i.natAbs : Int) = i by omega]
  | float d =>
      intro n rest _ hrest
      show value (n + 1) (sign _ ++ Nat.toDigits 10 d.whole ++ '.' :: _ ++ rest) = _
      rw [List.append_assoc, value_sign, ← List.append_assoc, number_float d hrest]
  | str s =>
      intro n rest _ _
      show value (n + 1) ('"' :: (escape st s.toList ++ ['"']) ++ rest) = _
      rw [List.cons_append, List.append_assoc]
      show (string (escape st s.toList ++ '"' :: rest)).map _ = _
      rw [string_quote]
      rfl
  | arr vs ih =>
      cases vs with
      | nil => exact fun n rest _ _ => rfl
      | cons v vs =>
          intro n rest hn _
          have hlen : (renderItems st (v :: vs)).length + 1 ≤ n := hn
          obtain ⟨m, rfl⟩ := Nat.exists_eq_succ_of_ne_zero (by omega : n ≠ 0)
          have hitems := items_render st v vs ih m rest (Nat.le_of_succ_le_succ hlen)
          obtain ⟨t, ht⟩ := renderItems_cons st v vs
          -- the first character of an item is no blank and no bracket that closes
          obtain ⟨c, s, hc, hblank, hclose⟩ := render_cons st v
          show value (m + 2) ('[' :: (renderItems st (v :: vs) ++ rest)) = _
          rw [ht, hc] at hitems ⊢
          refine (value_arr (m + 1) hblank hclose).trans ?_
          show (items (m + 1) (c :: s ++ t ++ rest)).map _ = _
          rw [hitems]
          rfl
  | obj ms ih =>
      cases ms with
      | nil => exact fun n rest _ _ => rfl
      | cons entry ms =>
          intro n rest hn _
          have hlen : (renderMembers st (entry :: ms)).length + 1 ≤ n := hn
          obtain ⟨m, rfl⟩ := Nat.exists_eq_succ_of_ne_zero (by omega : n ≠ 0)
          have hmembers := members_render st entry ms ih m rest (Nat.le_of_succ_le_succ hlen)
          obtain ⟨t, ht⟩ := renderMembers_cons st entry ms
          show value (m + 2) ('{' :: (renderMembers st (entry :: ms) ++ rest)) = _
          rw [ht] at hmembers ⊢
          refine (value_obj (m + 1) (t ++ rest)).trans ?_
          show (members (m + 1) ('"' :: t ++ rest)).map _ = _
          rw [hmembers]
          rfl

/-- **Round trip.** -/
theorem parse_render (st : Style) (v : Json) : parse (render st v) = some v := by
  have hv := value_render st v (render st v).length [] (Nat.le_refl _) stops_nil
  rw [List.append_nil] at hv
  unfold parse
  rw [hv]
  rfl

/-- Different values have different texts. -/
theorem render_injective (st : Style) : Function.Injective (render st) := by
  intro v w h
  have hsame := parse_render st v
  rw [h, parse_render] at hsame
  exact (Option.some.inj hsame).symm

/-! ## §4. The characters of a text. -/

/-- No control character; with escapes, nothing outside ASCII. -/
def Printable (st : Style) (cs : List Char) : Prop :=
  ∀ c ∈ cs, 32 ≤ c.toNat ∧ (st.ascii = true → c.toNat ≤ 126)

section
variable {st : Style} {cs ds : List Char} {c : Char}

theorem Printable.append (hc : Printable st cs) (hd : Printable st ds) : Printable st (cs ++ ds) := by
  intro c h
  rcases List.mem_append.mp h with h | h
  · exact hc c h
  · exact hd c h

theorem Printable.cons (hc : 32 ≤ c.toNat ∧ c.toNat ≤ 126) (hd : Printable st ds) :
    Printable st (c :: ds) := by
  intro d h
  rcases List.mem_cons.mp h with rfl | h
  · exact ⟨hc.1, fun _ => hc.2⟩
  · exact hd d h

theorem Printable.nil : Printable st [] := fun _ h => absurd h List.not_mem_nil

/-- A gap is a blank at most. -/
theorem printable_gap : Printable st st.gap := by
  unfold Style.gap
  split
  · exact .cons (by decide) .nil
  · exact .nil

/-- A list whose characters are checked one by one. -/
theorem printable_of_all (h : ∀ c ∈ cs, 32 ≤ c.toNat ∧ c.toNat ≤ 126) : Printable st cs :=
  fun c hc => ⟨(h c hc).1, fun _ => (h c hc).2⟩

/-- Digits are printable. -/
theorem printable_digit (h : c.isDigit = true) : 32 ≤ c.toNat ∧ c.toNat ≤ 126 := by
  have hrange : 48 ≤ c.val ∧ c.val ≤ 57 := by simpa [Char.isDigit] using h
  have hlow : 48 ≤ c.toNat := hrange.1
  have hhigh : c.toNat ≤ 57 := hrange.2
  omega

/-- Numbers are printable. -/
theorem printable_toDigits (n : Nat) : Printable st (Nat.toDigits 10 n) :=
  printable_of_all fun c hc => printable_digit (isDigit_toDigits c hc)

/-- Signs are printable. -/
theorem printable_sign (negative : Bool) : Printable st (sign negative) := by
  cases negative with
  | true => exact .cons (by decide) .nil
  | false => exact .nil

/-- An escape is a backslash, a letter and digits. -/
theorem printable_unicodeEscape (n : Nat) : Printable st (unicodeEscape n) := by
  have hhex : ∀ k, k < 16 → 32 ≤ (Nat.digitChar k).toNat ∧ (Nat.digitChar k).toNat ≤ 126 := by decide
  refine .cons (by decide) (.cons (by decide) ?_)
  refine printable_of_all fun c hc => ?_
  obtain ⟨k, hk, rfl⟩ := List.mem_map.mp hc
  refine hhex k ?_
  simp only [List.mem_cons, List.not_mem_nil, or_false] at hk
  omega

/-- A character is printable, or its escape is. -/
theorem printable_escapeChar (c : Char) : Printable st (escapeChar st c) := by
  unfold escapeChar
  cases hshort : List.lookup c shortEscapes with
  | some d =>
      have hall : ∀ e ∈ shortEscapes, 32 ≤ e.2.toNat ∧ e.2.toNat ≤ 126 := by decide
      obtain ⟨l₁, l₂, hl, _⟩ := List.lookup_eq_some_iff.mp hshort
      exact .cons (by decide) (.cons (hall (c, d) (hl ▸ by simp)) .nil)
  | none =>
      dsimp only
      split
      · exact printable_unicodeEscape _
      · next hcontrol =>
          split
          · split
            · exact printable_unicodeEscape _
            · exact (printable_unicodeEscape _).append (printable_unicodeEscape _)
          · next hascii =>
              intro d hd
              obtain rfl := List.mem_singleton.mp hd
              exact ⟨Nat.le_of_not_lt hcontrol, fun h => by
                by_contra hlt
                exact hascii ⟨h, Nat.lt_of_not_le hlt⟩⟩

/-- So is a quoted string, whatever is in it. -/
theorem printable_quote (s : String) : Printable st (quote st s) := by
  refine .cons (by decide) (.append ?_ (.cons (by decide) .nil))
  intro c hc
  obtain ⟨d, _, hd⟩ := List.mem_flatMap.mp hc
  exact printable_escapeChar d c hd

/-- Brackets and commas are printable, so an array is when its items are. -/
theorem printable_renderItems {vs : List Json} (h : ∀ v ∈ vs, Printable st (render st v)) :
    Printable st (renderItems st vs) := by
  induction vs with
  | nil => exact .cons (by decide) .nil
  | cons v vs ih =>
      have hv := h v (List.mem_cons_self ..)
      cases vs with
      | nil => exact hv.append (.cons (by decide) .nil)
      | cons w vs =>
          have hrest := ih fun u hu => h u (List.mem_cons_of_mem _ hu)
          exact (hv.append (.cons (by decide) printable_gap)).append hrest

/-- An object is printable when its values are. -/
theorem printable_renderMembers {ms : List (String × Json)}
    (h : ∀ m ∈ ms, Printable st (render st m.2)) : Printable st (renderMembers st ms) := by
  induction ms with
  | nil => exact .cons (by decide) .nil
  | cons entry ms ih =>
      obtain ⟨k, v⟩ := entry
      have hv : Printable st (render st v) := h (k, v) (List.mem_cons_self ..)
      have hentry : Printable st (quote st k ++ ':' :: st.gap ++ render st v) :=
        ((printable_quote k).append (.cons (by decide) printable_gap)).append hv
      cases ms with
      | nil => exact hentry.append (.cons (by decide) .nil)
      | cons w ms =>
          have hrest := ih fun u hu => h u (List.mem_cons_of_mem _ hu)
          exact (hentry.append (.cons (by decide) printable_gap)).append hrest

end

/-- **A text is one line**, and with escapes it is printable ASCII. -/
theorem printable_render (st : Style) (v : Json) : Printable st (render st v) := by
  induction v using Json.induct with
  | null =>
      have hall : ∀ c ∈ ['n', 'u', 'l', 'l'], 32 ≤ c.toNat ∧ c.toNat ≤ 126 := by simp
      exact printable_of_all hall
  | bool b =>
      have htrue : ∀ c ∈ ['t', 'r', 'u', 'e'], 32 ≤ c.toNat ∧ c.toNat ≤ 126 := by simp
      have hfalse : ∀ c ∈ ['f', 'a', 'l', 's', 'e'], 32 ≤ c.toNat ∧ c.toNat ≤ 126 := by simp
      cases b with
      | true => exact printable_of_all htrue
      | false => exact printable_of_all hfalse
  | int i => exact (printable_sign _).append (printable_toDigits _)
  | float d =>
      refine ((printable_sign _).append (printable_toDigits _)).append (.cons (by decide) ?_)
      refine printable_of_all fun c hc => ?_
      obtain ⟨k, _, rfl⟩ := List.mem_map.mp hc
      refine printable_digit ?_
      rw [Nat.isDigit_digitChar]
      exact decide_eq_true k.isLt
  | str s => exact printable_quote s
  | arr vs ih => exact .cons (by decide) (printable_renderItems ih)
  | obj ms ih => exact .cons (by decide) (printable_renderMembers ih)

end Json

end Procurement.Framework
