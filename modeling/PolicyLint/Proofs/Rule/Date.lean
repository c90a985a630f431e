import Mathlib.Algebra.Group.Nat.Defs
import PolicyLint.Rule.Registry

/-!
# Dates and their written form

`Calendar.Spells` says which digits spell a number in a given width : the number with zeros
before it does (`Calendar.spells_leftpad`), and nothing else (`Calendar.Spells.eq_padded`).
`Calendar.OnCalendar` is the calendar by its own rules, and `Calendar.WritesDate` the form
`YYYY-MM-DD`.

Main statement : exactly the days of the calendar that are written in that form are removal
dates, a date is written as it was read, and of untyped data only a null and such a text are
read without an error (`RemovalDate.parses_calendar`).
-/

namespace PolicyLint

namespace Calendar

variable {width n year month day : Nat} {digits : List Char} {text : String}

/-! ## Numbers in digits -/

/-- The digits of ASCII, `width` in all, that spell a number. -/
structure Spells (width : Nat) (digits : List Char) (n : Nat) : Prop where
  length_eq : digits.length = width
  isDigit : ∀ c ∈ digits, c.isDigit
  value_eq : Nat.ofDigitChars 10 digits 0 = n

theorem spells_nil_iff : Spells 0 digits n ↔ digits = [] ∧ n = 0 := by
  constructor
  · rintro ⟨hlength, -, hvalue⟩
    obtain rfl := List.length_eq_zero_iff.1 hlength
    exact ⟨rfl, hvalue.symm⟩
  · rintro ⟨rfl, rfl⟩
    exact ⟨rfl, nofun, rfl⟩

theorem exists_digitChar_eq {c : Char} (h : c.isDigit) : ∃ d < 10, c = Nat.digitChar d := by
  have hbounds : 48 ≤ c.toNat ∧ c.toNat ≤ 57 := by
    simpa [Char.isDigit, UInt32.le_iff_toNat_le] using h
  have hd : c.toNat - 48 < 10 := by omega
  refine ⟨c.toNat - 48, hd, Char.toNat_inj.1 ?_⟩
  rw [Nat.toNat_digitChar_of_lt_ten hd]
  omega

/-- The last digit is what is left of a number in tens. -/
theorem spells_concat_iff {d : Nat} (hd : d < 10) :
    Spells (width + 1) (digits ++ [Nat.digitChar d]) n ↔
      Spells width digits (n / 10) ∧ d = n % 10 := by
  have hvalue : Nat.ofDigitChars 10 (digits ++ [Nat.digitChar d]) 0 =
      10 * Nat.ofDigitChars 10 digits 0 + d := by
    rw [Nat.ofDigitChars_append, Nat.ofDigitChars_cons_digitChar_of_lt_ten hd, Nat.ofDigitChars_nil]
  constructor
  · rintro ⟨hlength, hdigits, hn⟩
    rw [hvalue] at hn
    refine ⟨⟨?_, fun c hc => hdigits c (List.mem_append_left _ hc), ?_⟩, ?_⟩
    · simpa using hlength
    · omega
    · omega
  · rintro ⟨⟨hlength, hdigits, hn⟩, hrest⟩
    refine ⟨?_, fun c hc => ?_, ?_⟩
    · simp [hlength]
    · rcases List.mem_append.1 hc with hc | hc
      · exact hdigits c hc
      · rw [List.mem_singleton.1 hc, Nat.isDigit_digitChar]
        exact decide_eq_true hd
    · rw [hvalue]
      omega

theorem Spells.exists_concat (h : Spells (width + 1) digits n) :
    ∃ front d, digits = front ++ [Nat.digitChar d] ∧ Spells width front (n / 10) ∧ d = n % 10 := by
  have hne : digits ≠ [] := by
    rintro rfl
    cases h.length_eq
  obtain ⟨front, c, rfl⟩ := (List.eq_nil_or_concat digits).resolve_left hne
  rw [List.concat_eq_append] at h ⊢
  obtain ⟨d, hd, rfl⟩ := exists_digitChar_eq (h.isDigit c (by simp))
  exact ⟨front, d, rfl, (spells_concat_iff hd).1 h⟩

/-- A number is spelled in a width in one way at most. -/
theorem Spells.eq_padded (h : Spells width digits n) : digits = padded width n := by
  induction width generalizing digits n with
  | zero => exact (spells_nil_iff.1 h).1
  | succ width ih =>
    obtain ⟨front, d, rfl, hfront, rfl⟩ := h.exists_concat
    rw [padded, ih hfront]

theorem Spells.lt (h : Spells width digits n) : n < 10 ^ width := by
  induction width generalizing digits n with
  | zero =>
    obtain ⟨-, rfl⟩ := spells_nil_iff.1 h
    exact Nat.one_pos
  | succ width ih =>
    obtain ⟨front, d, -, hfront, -⟩ := h.exists_concat
    have hlt := ih hfront
    rw [Nat.pow_succ]
    omega

/-- The digits of a number with zeros before them. -/
theorem spells_leftpad (hwidth : 0 < width) (h : n < 10 ^ width) :
    Spells width ((Nat.toDigits 10 n).leftpad width '0') n where
  length_eq := by
    have hlength := (Nat.length_toDigits_le_iff (b := 10) (by decide) hwidth).2 h
    rw [List.length_leftpad]
    omega
  isDigit c hc := by
    rcases List.mem_append.1 hc with hc | hc
    · rw [List.eq_of_mem_replicate hc]
      rfl
    · exact Nat.isDigit_of_mem_toDigits (by decide) (by decide) hc
  value_eq := by
    rw [List.leftpad, Nat.ofDigitChars_append, Nat.ofDigitChars_replicate_zero, Nat.mul_zero,
      Nat.ofDigitChars_ten_toDigits]

theorem number?_eq_some_iff :
    number? digits = some n ↔ Spells digits.length digits n := by
  suffices hfold : ∀ start, digits.foldlM (fun n c =>
      if c.isDigit then some (10 * n + (c.toNat - '0'.toNat)) else none) start = some n ↔
        (∀ c ∈ digits, c.isDigit) ∧ Nat.ofDigitChars 10 digits start = n from
    (hfold 0).trans ⟨fun ⟨hdigits, hn⟩ => ⟨rfl, hdigits, hn⟩, fun h => ⟨h.isDigit, h.value_eq⟩⟩
  induction digits with
  | nil => simp
  | cons c digits ih =>
    intro start
    rw [List.foldlM_cons, Nat.ofDigitChars_cons, List.forall_mem_cons]
    by_cases hc : c.isDigit
    · rw [if_pos hc, Option.bind_eq_bind, Option.bind_some, ih, and_iff_right hc]
    · rw [if_neg hc]
      exact iff_of_false nofun fun h => hc h.1.1

/-! ## Days of the calendar -/

/-- A day of the calendar. Four months have 30 days, February has 29 in leap years and 28 in
others, and the rest have 31. -/
structure OnCalendar (year month day : Nat) : Prop where
  year_pos : 1 ≤ year
  month_pos : 1 ≤ month
  month_le : month ≤ 12
  day_pos : 1 ≤ day
  day_le : day ≤ 31
  short : month = 4 ∨ month = 6 ∨ month = 9 ∨ month = 11 → day ≤ 30
  february : month = 2 → day ≤ 29
  leap : month = 2 → day = 29 → 4 ∣ year ∧ ¬100 ∣ year ∨ 400 ∣ year

theorem isLeapYear_iff : isLeapYear year ↔ 4 ∣ year ∧ ¬100 ∣ year ∨ 400 ∣ year := by
  simp only [isLeapYear, Bool.and_eq_true, Bool.or_eq_true, beq_iff_eq, bne_iff_ne]
  omega

theorem le_daysInMonth_two_iff : day ≤ daysInMonth year 2 ↔
    day ≤ 29 ∧ (day = 29 → 4 ∣ year ∧ ¬100 ∣ year ∨ 400 ∣ year) := by
  have hdays : daysInMonth year 2 = if isLeapYear year then 29 else 28 := rfl
  rw [← isLeapYear_iff, hdays]
  by_cases hleap : isLeapYear year
  · rw [if_pos hleap]
    exact ⟨fun h => ⟨h, fun _ => hleap⟩, And.left⟩
  · rw [if_neg hleap]
    constructor
    · intro h
      exact ⟨by omega, fun hlast => by omega⟩
    · rintro ⟨h, hlast⟩
      have hne : day ≠ 29 := fun hday => hleap (hlast hday)
      omega

theorem daysInMonth_of_short (h : month = 4 ∨ month = 6 ∨ month = 9 ∨ month = 11) :
    daysInMonth year month = 30 := by
  rcases h with rfl | rfl | rfl | rfl <;> rfl

theorem daysInMonth_of_long
    (h : month = 1 ∨ month = 3 ∨ month = 5 ∨ month = 7 ∨ month = 8 ∨ month = 10 ∨ month = 12) :
    daysInMonth year month = 31 := by
  rcases h with rfl | rfl | rfl | rfl | rfl | rfl | rfl <;> rfl

theorem daysInMonth_eq_zero (h : ¬(1 ≤ month ∧ month ≤ 12)) : daysInMonth year month = 0 := by
  obtain rfl | hmonth : month = 0 ∨ 13 ≤ month := by omega
  · rfl
  · obtain ⟨k, rfl⟩ := Nat.exists_eq_add_of_le' hmonth
    rfl

/-- The last days of the months, by the rules of the calendar. -/
theorem le_daysInMonth_iff (h : 1 ≤ month ∧ month ≤ 12) : day ≤ daysInMonth year month ↔
    day ≤ 31 ∧ (month = 4 ∨ month = 6 ∨ month = 9 ∨ month = 11 → day ≤ 30) ∧
      (month = 2 → day ≤ 29) ∧ (month = 2 → day = 29 → 4 ∣ year ∧ ¬100 ∣ year ∨ 400 ∣ year) := by
  obtain rfl | hshort | hlong : month = 2 ∨ (month = 4 ∨ month = 6 ∨ month = 9 ∨ month = 11) ∨
    (month = 1 ∨ month = 3 ∨ month = 5 ∨ month = 7 ∨ month = 8 ∨ month = 10 ∨ month = 12) := by
    omega
  · rw [le_daysInMonth_two_iff]
    constructor
    · rintro ⟨hday, hleap⟩
      exact ⟨by omega, by omega, fun _ => hday, fun _ => hleap⟩
    · rintro ⟨-, -, hday, hleap⟩
      exact ⟨hday rfl, hleap rfl⟩
  · rw [daysInMonth_of_short hshort]
    exact ⟨fun hday => ⟨by omega, fun _ => hday, by omega, by omega⟩, fun hday => hday.2.1 hshort⟩
  · rw [daysInMonth_of_long hlong]
    exact ⟨fun hday => ⟨hday, by omega, by omega, by omega⟩, And.left⟩

/-- Days are told by the rules of the calendar, in years of at most four digits. -/
theorem isDay_iff : IsDay year month day ↔ OnCalendar year month day ∧ year ≤ 9999 := by
  constructor
  · rintro ⟨hyear, hyear_le, hpos, hday⟩
    have hmonth : 1 ≤ month ∧ month ≤ 12 := Decidable.byContradiction fun hnone => by
      rw [daysInMonth_eq_zero hnone] at hday
      omega
    obtain ⟨hday_le, hshort, hfebruary, hleap⟩ := (le_daysInMonth_iff hmonth).1 hday
    exact ⟨⟨hyear, hmonth.1, hmonth.2, hpos, hday_le, hshort, hfebruary, hleap⟩, hyear_le⟩
  · rintro ⟨h, hyear_le⟩
    exact ⟨h.year_pos, hyear_le, h.day_pos, (le_daysInMonth_iff ⟨h.month_pos, h.month_le⟩).2
      ⟨h.day_le, h.short, h.february, h.leap⟩⟩

/-! ## Dates in digits -/

/-- A text is the form `YYYY-MM-DD` of these numbers. -/
inductive WritesDate (year month day : Nat) : String → Prop
  | intro {y m d : List Char} (hyear : Spells 4 y year) (hmonth : Spells 2 m month)
    (hday : Spells 2 d day) :
    WritesDate year month day (String.ofList (y ++ '-' :: m ++ '-' :: d))

/-- Numbers are written as a date in one way at most. -/
theorem WritesDate.eq_padded (h : WritesDate year month day text) :
    text = String.ofList (padded 4 year ++ '-' :: padded 2 month ++ '-' :: padded 2 day) := by
  obtain ⟨hyear, hmonth, hday⟩ := h
  rw [hyear.eq_padded, hmonth.eq_padded, hday.eq_padded]

theorem WritesDate.year_le (h : WritesDate year month day text) : year ≤ 9999 := by
  obtain ⟨hyear, -, -⟩ := h
  exact Nat.le_of_lt_succ hyear.lt

end Calendar

open Calendar (OnCalendar WritesDate Spells isDay_iff number?_eq_some_iff spells_leftpad)

namespace RemovalDate

variable {text : String} {date : RemovalDate}

theorem onCalendar (date : RemovalDate) : OnCalendar date.year date.month date.day :=
  (isDay_iff.1 date.isDay).1

theorem ofParts?_eq_some_iff {year month day : Nat} : ofParts? year month day = some date ↔
    date.year = year ∧ date.month = month ∧ date.day = day := by
  unfold ofParts?
  constructor
  · intro h
    split at h
    · obtain rfl := Option.some.inj h
      exact ⟨rfl, rfl, rfl⟩
    · cases h
  · rintro ⟨rfl, rfl, rfl⟩
    exact dif_pos date.isDay

/-- Dates are read from ten characters, and their numbers from the digits among these. -/
theorem ofChars?_eq_some_iff {y₁ y₂ y₃ y₄ m₁ m₂ d₁ d₂ : Char} :
    ofChars? [y₁, y₂, y₃, y₄, '-', m₁, m₂, '-', d₁, d₂] = some date ↔
      Spells 4 [y₁, y₂, y₃, y₄] date.year ∧ Spells 2 [m₁, m₂] date.month ∧
        Spells 2 [d₁, d₂] date.day := by
  simp only [ofChars?, Option.bind_eq_bind, Option.bind_eq_some_iff, number?_eq_some_iff,
    ofParts?_eq_some_iff]
  constructor
  · rintro ⟨year, hyear, month, hmonth, day, hday, rfl, rfl, rfl⟩
    exact ⟨hyear, hmonth, hday⟩
  · rintro ⟨hyear, hmonth, hday⟩
    exact ⟨_, hyear, _, hmonth, _, hday, rfl, rfl, rfl⟩

/-- A text is read as the date whose numbers it writes. -/
theorem ofText?_eq_some_iff :
    ofText? text = some date ↔ WritesDate date.year date.month date.day text := by
  constructor
  · intro h
    rw [ofText?] at h
    rw [← String.ofList_toList (s := text)]
    generalize text.toList = chars at h ⊢
    -- Texts of any other form are not read.
    have hform := h
    unfold ofChars? at hform
    split at hform
    · obtain ⟨hyear, hmonth, hday⟩ := ofChars?_eq_some_iff.1 h
      exact .intro hyear hmonth hday
    · cases hform
  · rintro (@⟨y, m, d, hyear, hmonth, hday⟩)
    rw [ofText?, String.toList_ofList]
    match y, m, d, hyear.length_eq, hmonth.length_eq, hday.length_eq with
    | [y₁, y₂, y₃, y₄], [m₁, m₂], [d₁, d₂], _, _, _ =>
      exact ofChars?_eq_some_iff.2 ⟨hyear, hmonth, hday⟩

theorem lt_pow (date : RemovalDate) :
    date.year < 10 ^ 4 ∧ date.month < 10 ^ 2 ∧ date.day < 10 ^ 2 := by
  have hyear := date.isDay.2.1
  have hmonth := date.onCalendar.month_le
  have hday := date.onCalendar.day_le
  omega

/-! ## Reading dates -/

theorem parse_eq_ok_iff : parse text = .ok date ↔ ofText? text = some date := by
  unfold parse
  cases ofText? text <;> simp

theorem parse_eq_error {error : RuleError} (h : parse text = .error error) :
    error = .invalidRemovalDate text := by
  unfold parse at h
  split at h
  · cases h
  · exact (Except.error.inj h).symm

/-- There is a date with the numbers of every day of the calendar. -/
theorem exists_of_onCalendar {year month day : Nat} (h : OnCalendar year month day)
    (hyear : year ≤ 9999) :
    ∃ date : RemovalDate, date.year = year ∧ date.month = month ∧ date.day = day :=
  ⟨⟨year, month, day, isDay_iff.2 ⟨h, hyear⟩⟩, rfl, rfl, rfl⟩

theorem exists_parse_eq_ok_iff : (∃ date, parse text = .ok date) ↔
    ∃ year month day, WritesDate year month day text ∧ OnCalendar year month day := by
  constructor
  · rintro ⟨date, hdate⟩
    exact ⟨_, _, _, ofText?_eq_some_iff.1 (parse_eq_ok_iff.1 hdate), date.onCalendar⟩
  · rintro ⟨year, month, day, hwritten, hday⟩
    obtain ⟨date, rfl, rfl, rfl⟩ := exists_of_onCalendar hday hwritten.year_le
    exact ⟨date, parse_eq_ok_iff.2 (ofText?_eq_some_iff.2 hwritten)⟩

/-- The removal dates are the days of the calendar, written with four, two and two digits, and
no two texts are the same date. In untyped data a null stands for no date, and what is neither
a null nor a text is refused. -/
theorem parses_calendar :
    (∀ text, (∃ date, parse text = .ok date) ↔
      ∃ year month day, WritesDate year month day text ∧ OnCalendar year month day) ∧
    (∀ text date, parse text = .ok date →
      WritesDate date.year date.month date.day text ∧ date.text = text) ∧
    (∀ text error, parse text = .error error → error = .invalidRemovalDate text) ∧
    (∀ year month day, OnCalendar year month day → year ≤ 9999 →
      ∃ date : RemovalDate, (date.year = year ∧ date.month = month ∧ date.day = day) ∧
        parse (String.ofList ((Nat.toDigits 10 year).leftpad 4 '0' ++
          '-' :: (Nat.toDigits 10 month).leftpad 2 '0' ++
          '-' :: (Nat.toDigits 10 day).leftpad 2 '0')) = .ok date) ∧
    (∀ text text' date, parse text = .ok date → parse text' = .ok date → text = text') ∧
    (∀ text, ofValue (.string text) = (parse text).map some) ∧ ofValue .null = .ok none ∧
    ∀ value, value ≠ .null → (∀ text, value ≠ .string text) →
      ofValue value = .error (.removalDateNotString value) := by
  have hwrites {text : String} {date : RemovalDate} (h : parse text = .ok date) :
      WritesDate date.year date.month date.day text :=
    ofText?_eq_some_iff.1 (parse_eq_ok_iff.1 h)
  refine ⟨fun _ => exists_parse_eq_ok_iff, fun text date h => ?_, fun _ _ => parse_eq_error,
    fun year month day hday hyear => ?_, fun text text' date h h' => ?_, fun _ => rfl, rfl,
    fun value hnull hstring => ?_⟩
  · exact ⟨hwrites h, (hwrites h).eq_padded.symm⟩
  · obtain ⟨date, rfl, rfl, rfl⟩ := exists_of_onCalendar hday hyear
    refine ⟨date, ⟨rfl, rfl, rfl⟩, parse_eq_ok_iff.2 (ofText?_eq_some_iff.2 ?_)⟩
    obtain ⟨hyear, hmonth, hday⟩ := date.lt_pow
    exact .intro (spells_leftpad (by decide) hyear) (spells_leftpad (by decide) hmonth)
      (spells_leftpad (by decide) hday)
  · rw [(hwrites h).eq_padded, (hwrites h').eq_padded]
  · cases value with
    | null => exact absurd rfl hnull
    | string text => exact absurd rfl (hstring text)
    | boolean | number | list | mapping => rfl

/-- The last day of February is read and written back in a leap year, and is refused in another
year, as is a number. -/
theorem parse_leapDay :
    (∃ date : RemovalDate, (date.year = 2024 ∧ date.month = 2 ∧ date.day = 29) ∧
      parse "2024-02-29" = .ok date ∧ date.text = "2024-02-29") ∧
    (∃ error, parse "2023-02-29" = .error error ∧ error = .invalidRemovalDate "2023-02-29") ∧
    ofValue (.boolean true) = .error (.removalDateNotString (.boolean true)) := by
  obtain ⟨-, hwrites, hrefused, hpadded, -, -, -, hother⟩ := parses_calendar
  have hday : OnCalendar 2024 2 29 :=
    ⟨by decide, by decide, by decide, by decide, by decide, by decide, by decide, by decide⟩
  obtain ⟨date, hnumbers, hdate⟩ := hpadded 2024 2 29 hday (by decide)
  have hnone : parse "2023-02-29" = .error (.invalidRemovalDate "2023-02-29") := rfl
  exact ⟨⟨date, hnumbers, hdate, (hwrites _ _ hdate).2⟩,
    ⟨_, hnone, hrefused _ _ hnone⟩, hother _ nofun nofun⟩

end RemovalDate

end PolicyLint
