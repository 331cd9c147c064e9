import EngineHost.Proofs.Text.Trim
import EngineHost.Proofs.Word
import EngineHost.Request

/-!
# Code in hexadecimal

Code is given as a text of hexadecimal digits, with an optional mark in front and blanks around it.
What is left without blanks and mark decides the outcome: an even number of digits spells the code,
an odd number of bytes is refused whatever they are, and otherwise the first byte that is no digit
is told. Bytes are counted, not characters, and the mark and the blanks do not count.
-/

namespace EngineHost.Hex

/-- Characters that spell a byte string: two digits for each byte. -/
inductive Writes : List Char → Bytes → Prop where
  | nil : Writes [] []
  | pair {high low : Char} {h l : Nat} {cs : List Char} {bs : Bytes} (hhigh : CharDigit high h)
    (hlow : CharDigit low l) (hrest : Writes cs bs) :
    Writes (high :: low :: cs) (UInt8.ofNat (16 * h + l) :: bs)

/-- A byte that is not the ASCII code of a hexadecimal digit. -/
def NoDigit (b : UInt8) : Prop := ∀ c d, CharDigit c d → c.toNat ≠ b.toNat

/-- Of the bytes that are no digit, the first is `b`, at this index. -/
structure FirstBad (bytes : Bytes) (index : Nat) (b : UInt8) : Prop where
  found : bytes[index]? = some b
  bad : NoDigit b
  before : ∀ i < index, ∀ c ∈ bytes[i]?, ¬NoDigit c

/-- The text `s`, less the blanks at its ends and then less one mark, is `t`. -/
def Bare (s t : String) : Prop := ∃ u, Text.Trimmed s u ∧ Unmarked u t

/-- What is read from a text of which `t` is left without blanks and mark. -/
inductive Reading (t : String) : Except Fault Bytes → Prop where
  | digits {bs : Bytes} (hwrites : Writes t.toList bs) : Reading t (.ok bs)
  | odd (hodd : (Bytes.ofText t).length % 2 = 1) : Reading t (.error .oddLength)
  | bad {index : Nat} {b : UInt8} (heven : (Bytes.ofText t).length % 2 = 0)
    (hfirst : FirstBad (Bytes.ofText t) index b) : Reading t (.error (.badDigit b index))

/-! ### Digits of a byte string -/

/-- Characters spell a byte string just in case they are its digits one by one. -/
theorem writes_iff {cs : List Char} {bs : Bytes} :
    Writes cs bs ↔ List.Forall₂ CharDigit cs ((digitValues bs).map UInt8.toNat) := by
  constructor
  · intro h
    induction h with
    | nil => exact .nil
    | @pair high low h l cs bs hhigh hlow _ ih =>
      have hh := hhigh.1
      have hl := hlow.1
      have hbyte : (UInt8.ofNat (16 * h + l)).toNat = 16 * h + l := by
        rw [UInt8.toNat_ofNat']
        omega
      have hdiv : (UInt8.ofNat (16 * h + l) / 16).toNat = h := by
        rw [UInt8.toNat_div, hbyte]
        change (16 * h + l) / 16 = h
        omega
      have hmod : (UInt8.ofNat (16 * h + l) % 16).toNat = l := by
        rw [UInt8.toNat_mod, hbyte]
        change (16 * h + l) % 16 = l
        omega
      rw [digitValues, List.flatMap_cons, List.map_append, List.map_cons, List.map_cons, hdiv, hmod]
      exact .cons hhigh (.cons hlow ih)
  · intro h
    induction bs generalizing cs with
    | nil =>
      cases h
      exact .nil
    | cons b bs ih =>
      cases h with
      | cons hhigh hrest =>
        cases hrest with
        | cons hlow hrest =>
          have hb := b.toNat_lt
          have hjoin : UInt8.ofNat (16 * (b / 16).toNat + (b % 16).toNat) = b := by
            rw [UInt8.toNat_div, UInt8.toNat_mod]
            change UInt8.ofNat (16 * (b.toNat / 16) + b.toNat % 16) = b
            rw [Nat.div_add_mod, UInt8.ofNat_toNat]
          have hpair := Writes.pair hhigh hlow (ih hrest)
          rwa [hjoin] at hpair

/-- A text is read as a byte string exactly if its characters spell it. -/
theorem decode_eq_ok_iff_writes {t : String} {bs : Bytes} :
    decode (Bytes.ofText t) = .ok bs ↔ Writes t.toList bs := by
  rw [decode_eq_ok_iff, Bytes.ofText_eq_flatMap, forall₂_isDigit_iff, writes_iff]

/-- The reader takes every byte for a digit that is one, and no other. -/
theorem digit?_eq_none_iff {b : UInt8} : digit? b = none ↔ NoDigit b := by
  constructor
  · intro hnone c d hd hc
    obtain ⟨hascii, b', hencode, hdigit⟩ := hd.utf8EncodeChar
    have hlt : b < 128 := by
      change b.toNat < 128
      omega
    rw [Json.utf8EncodeChar_of_ascii hlt hc] at hencode
    obtain rfl : b = b' := by simpa using hencode
    rw [digit?_of_isDigit hdigit] at hnone
    cases hnone
  · intro hno
    cases hdigit : digit? b with
    | none => rfl
    | some d =>
      have hd := isDigit_of_digit? hdigit
      have hchar := toNat_ofNat_of_ascii (ascii_of_isDigit hd).1
      exact absurd hchar (hno _ _ (charDigit_of_isDigit hchar hd))

/-- A byte that is read as a digit is not bad. -/
theorem not_noDigit_of_digit? {b d : UInt8} (h : digit? b = some d) : ¬NoDigit b := by
  rw [← digit?_eq_none_iff, h]
  simp

/-- Among digits there is no bad byte. -/
theorem not_noDigit_of_mem {digits ds : Bytes} (h : List.Forall₂ IsDigit digits ds) {b : UInt8}
    (hb : b ∈ digits) : ¬NoDigit b := by
  induction h with
  | nil => cases hb
  | cons hdigit _ ih =>
    rcases List.mem_cons.mp hb with rfl | hrest
    · exact not_noDigit_of_digit? (digit?_of_isDigit hdigit)
    · exact ih hrest

/-! ### The first byte that is no digit -/

/-- If the first byte is bad, it is the first bad one. -/
theorem FirstBad.head {b : UInt8} (hb : NoDigit b) (bytes : Bytes) : FirstBad (b :: bytes) 0 b :=
  ⟨rfl, hb, fun i hi => absurd hi (Nat.not_lt_zero i)⟩

/-- A digit in front moves the first bad byte by one. -/
theorem FirstBad.cons {bytes : Bytes} {index : Nat} {b c : UInt8} (hc : ¬NoDigit c)
    (h : FirstBad bytes index b) : FirstBad (c :: bytes) (index + 1) b := by
  refine ⟨h.found, h.bad, fun i hi e he => ?_⟩
  cases i with
  | zero =>
    obtain rfl : c = e := by simpa using he
    exact hc
  | succ i => exact h.before i (by omega) e (by simpa using he)

/-- There is one first bad byte at most. -/
theorem FirstBad.unique {bytes : Bytes} {i j : Nat} {b c : UInt8} (hb : FirstBad bytes i b)
    (hc : FirstBad bytes j c) : i = j ∧ b = c := by
  have hij : i = j := by
    apply Nat.le_antisymm
    · by_contra hlt
      exact hb.before j (by omega) c hc.found hc.bad
    · by_contra hlt
      exact hc.before i (by omega) b hb.found hb.bad
  subst hij
  exact ⟨rfl, Option.some.inj (hb.found.symm.trans hc.found)⟩

/-- Pairs are read until the first byte that is no digit, whichever half of a pair that is. -/
theorem pairs_ok_or_firstBad (start : Nat) (digits : Bytes) (heven : digits.length % 2 = 0) :
    (∃ bs, pairs start digits = .ok bs) ∨
      ∃ index b, pairs start digits = .error (.badDigit b (start + index)) ∧
        FirstBad digits index b := by
  fun_induction pairs start digits with
  | case1 start high low rest hhigh =>
    exact .inr ⟨0, high, rfl, .head (digit?_eq_none_iff.mp hhigh) _⟩
  | case2 start high low rest h hlow hhigh =>
    have hfirst := FirstBad.head (digit?_eq_none_iff.mp hlow) rest
    exact .inr ⟨1, low, rfl, hfirst.cons (not_noDigit_of_digit? hhigh)⟩
  | case3 start high low rest h l hlow hhigh fault hfault ih =>
    have hrest : rest.length % 2 = 0 := by
      simp only [List.length_cons] at heven
      omega
    rcases ih hrest with ⟨bs, hok⟩ | ⟨index, b, herror, hfirst⟩
    · rw [hfault] at hok
      cases hok
    · have hshift : start + 2 + index = start + (index + 1 + 1) := by omega
      rw [hfault, hshift] at herror
      refine .inr ⟨index + 1 + 1, b, herror, ?_⟩
      exact (hfirst.cons (not_noDigit_of_digit? hlow)).cons (not_noDigit_of_digit? hhigh)
  | case4 start high low rest h l hlow hhigh bs => exact .inl ⟨_, rfl⟩
  | case5 => exact .inl ⟨_, rfl⟩

/-! ### Readings -/

/-- What is decoded is a reading. -/
theorem reading_decode (t : String) : Reading t (decode (Bytes.ofText t)) := by
  cases hdecode : decode (Bytes.ofText t) with
  | ok bs => exact .digits (decode_eq_ok_iff_writes.mp hdecode)
  | error fault =>
    unfold decode at hdecode
    split at hdecode
    case isTrue hodd =>
      cases hdecode
      exact .odd hodd
    case isFalse hodd =>
      have heven : (Bytes.ofText t).length % 2 = 0 := by omega
      rcases pairs_ok_or_firstBad 0 _ heven with ⟨bs, hok⟩ | ⟨index, b, herror, hfirst⟩
      · rw [hok] at hdecode
        cases hdecode
      · rw [herror, Nat.zero_add] at hdecode
        cases hdecode
        exact .bad heven hfirst

/-- A reading is what is decoded. -/
theorem Reading.eq_decode {t : String} {r : Except Fault Bytes} (h : Reading t r) :
    decode (Bytes.ofText t) = r := by
  cases h with
  | digits hwrites => exact decode_eq_ok_iff_writes.mpr hwrites
  | odd hodd => rw [decode, if_pos hodd]
  | @bad index b heven hfirst =>
    have hnot : ¬(Bytes.ofText t).length % 2 = 1 := by omega
    rw [decode, if_neg hnot]
    rcases pairs_ok_or_firstBad 0 _ heven with ⟨bs, hok⟩ | ⟨index', b', herror, hfirst'⟩
    · -- All bytes would be digits then, also the one that is not.
      have hdigits := isDigit_of_pairs hok heven
      have hb := not_noDigit_of_mem hdigits (List.mem_of_getElem? hfirst.found)
      exact absurd hfirst.bad hb
    · obtain ⟨rfl, rfl⟩ := hfirst.unique hfirst'
      rw [herror, Nat.zero_add]

/-- A text reads as a byte string just in case its characters spell it. -/
theorem reading_ok_iff {t : String} {bs : Bytes} : Reading t (.ok bs) ↔ Writes t.toList bs := by
  constructor
  · rintro ⟨hwrites⟩
    exact hwrites
  · exact .digits

/-- What is left of a text without blanks and mark is what `stripMark` leaves of the trimmed text.
-/
theorem bare_iff {s t : String} : Bare s t ↔ stripMark (Text.trim s) = t := by
  constructor
  · rintro ⟨u, hu, ht⟩
    rw [hu.trim_eq, unmarked_iff.mp ht]
  · intro h
    exact ⟨Text.trim s, Text.trimmed_trim s, unmarked_iff.mpr h⟩

/-- The parser returns what the text reads as, be it bytes or a fault. -/
theorem parse_eq_iff {s t : String} (ht : Bare s t) {r : Except Fault Bytes} :
    parse s = r ↔ Reading t r := by
  rw [parse, bare_iff.mp ht]
  constructor
  · rintro rfl
    exact reading_decode t
  · exact Reading.eq_decode

/-! ### Every spelling of a byte string -/

/-- The encoding of a byte string has the characters of its digits, in lower case. -/
theorem toList_encode_eq (bs : Bytes) :
    (encode bs).toList = ((digitValues bs).map UInt8.toNat).map Nat.digitChar := by
  have hall : ∀ n < 16, Char.ofNat (digitByte (UInt8.ofNat n)).toNat = n.digitChar := by decide
  have hdigit : ∀ d : UInt8, d < 16 → Char.ofNat (digitByte d).toNat = d.toNat.digitChar := by
    intro d hd
    have hd' := hall d.toNat hd
    rwa [UInt8.ofNat_toNat] at hd'
  rw [encode, String.toList_ofList]
  induction bs with
  | nil => rfl
  | cons b bs ih =>
    rw [encodeBytes, digitValues] at ih ⊢
    rw [List.flatMap_cons, List.flatMap_cons, List.map_append, List.map_append, List.map_append, ih]
    simp only [List.map_cons, List.map_nil, hdigit _ (isDigit_high b).1, hdigit _ (isDigit_low b).1]

/-- A character whose lower-case form is a digit is that digit. -/
theorem charDigit_of_toLower {c : Char} {d : Nat} (hd : d < 16) (hc : c.toLower = d.digitChar) :
    CharDigit c d := by
  have hall : ∀ d < 16, ∀ n < 91, 65 ≤ n → n + 32 = d.digitChar.toNat →
      Char.ofNat n = d.digitChar.toUpper := by decide
  refine ⟨hd, ?_⟩
  unfold Char.toLower at hc
  split at hc
  case isTrue hupper =>
    have hleast : 65 ≤ c.toNat := hupper.1
    have hmost : c.toNat ≤ 90 := hupper.2
    have hcode : c.toNat + 32 = d.digitChar.toNat := by
      rw [← hc]
      change c.toNat + 32 = (c.val + 32).toNat
      rw [UInt32.toNat_add]
      change c.toNat + 32 = (c.toNat + 32) % 2 ^ 32
      omega
    have hchar := hall d hd c.toNat (by omega) hleast hcode
    rw [Char.ofNat_toNat] at hchar
    exact .inr hchar
  case isFalse => exact .inl hc

/-- A text is put in lower case character by character. -/
theorem toList_toLower (s : String) : s.toLower.toList = s.toList.map Char.toLower :=
  String.toList_map

/-- Digits in any mixture of cases spell the byte string whose digits they are in lower case. -/
theorem writes_of_toLower {digits : String} {bs : Bytes} (h : digits.toLower = encode bs) :
    Writes digits.toList bs := by
  have hmap : digits.toList.map Char.toLower =
      ((digitValues bs).map UInt8.toNat).map Nat.digitChar := by
    rw [← toList_encode_eq, ← h, toList_toLower]
  have hsmall : ∀ d ∈ (digitValues bs).map UInt8.toNat, d < 16 :=
    fun _ hd => lt_sixteen_of_mem_digitValues hd
  rw [writes_iff]
  generalize (digitValues bs).map UInt8.toNat = ds at hmap hsmall
  generalize digits.toList = cs at hmap
  induction ds generalizing cs with
  | nil =>
    rw [List.map_nil, List.map_eq_nil_iff] at hmap
    subst hmap
    exact .nil
  | cons d ds ih =>
    obtain ⟨c, cs, rfl, hc, hcs⟩ := List.map_eq_cons_iff.mp hmap
    have hrest : ∀ e ∈ ds, e < 16 := fun e he => hsmall e (List.mem_cons_of_mem d he)
    exact .cons (charDigit_of_toLower (hsmall d (List.mem_cons_self ..)) hc) (ih hrest cs hcs)

/-- A digit is neither blank nor the letter of a mark. -/
theorem CharDigit.apart {c : Char} {d : Nat} (hc : CharDigit c d) :
    Text.isBlank c = false ∧ c ≠ 'x' ∧ c ≠ 'X' := by
  have hall : ∀ d < 16, (Text.isBlank d.digitChar = false ∧ d.digitChar ≠ 'x' ∧
      d.digitChar ≠ 'X') ∧ (Text.isBlank d.digitChar.toUpper = false ∧
      d.digitChar.toUpper ≠ 'x' ∧ d.digitChar.toUpper ≠ 'X') := by decide
  obtain ⟨hd, rfl | rfl⟩ := hc
  · exact (hall d hd).1
  · exact (hall d hd).2

/-- Among digits there are neither blanks nor the letter of a mark. -/
theorem Writes.apart {cs : List Char} {bs : Bytes} (h : Writes cs bs) {c : Char} (hc : c ∈ cs) :
    Text.isBlank c = false ∧ c ≠ 'x' ∧ c ≠ 'X' := by
  induction h with
  | nil => cases hc
  | pair hhigh hlow _ ih =>
    rcases List.mem_cons.mp hc with rfl | hrest
    · exact hhigh.apart
    · rcases List.mem_cons.mp hrest with rfl | hrest
      · exact hlow.apart
      · exact ih hrest

/-- Digits are what is left of a text that has them behind a mark and between blanks. -/
theorem Writes.bare {left right mark digits : String} {bs : Bytes}
    (h : Writes digits.toList bs) (hleft : Text.Blank left) (hright : Text.Blank right)
    (hmark : mark ∈ marks) : Bare (left ++ (mark ++ digits) ++ right) digits := by
  have hmarks : ∀ c ∈ mark.toList, Text.isBlank c = false := by
    have hall : marks.all (fun m => m.toList.all (Text.isBlank · = false)) = true := by decide
    simpa using List.all_eq_true.mp hall mark hmark
  refine ⟨mark ++ digits, Text.trimmed_of_not_blank hleft hright fun c hc => ?_, ?_⟩
  · rw [String.toList_append, List.mem_append] at hc
    rcases hc with hc | hc
    · exact hmarks c hc
    · exact (h.apart hc).1
  · simp only [marks, List.mem_cons, List.not_mem_nil, or_false] at hmark
    rcases hmark with rfl | rfl | rfl
    · -- Without a mark, the digits could only be mistaken for one if they had its letter.
      rw [String.empty_append]
      refine .inr (.inr ⟨rfl, fun rest => ⟨?_, ?_⟩⟩)
      · rintro rfl
        exact (h.apart (c := 'x') (by simp)).2.1 rfl
      · rintro rfl
        exact (h.apart (c := 'X') (by simp)).2.2 rfl
    · exact .inl rfl
    · exact .inr (.inl rfl)

/-! ### Requests -/

/-- A request is made of a text just in case the text is read as its code. -/
theorem ofHex_eq_ok_iff {s : String} {options : Options} {request : Request} :
    Request.ofHex s options = .ok request ↔
      parse s = .ok request.code ∧ request.options = options := by
  obtain ⟨code, asked⟩ := request
  unfold Request.ofHex
  cases parse s with
  | error fault => simp
  | ok bytes =>
    simp only [Except.ok.injEq, Request.mk.injEq]
    exact and_congr_right fun _ => eq_comm

/-- No request is made of a text just in case it is not hexadecimal, and the error tells why. -/
theorem ofHex_eq_error_iff {s : String} {options : Options} {e : Error} :
    Request.ofHex s options = .error e ↔
      ∃ fault, parse s = .error fault ∧ e = .invalidInput (.notHex fault) := by
  unfold Request.ofHex
  cases parse s with
  | error fault =>
    simp only [Except.error.injEq, exists_eq_left']
    exact eq_comm
  | ok bytes => simp

/-- Of each text, one text `t` is left without blanks and mark, and it decides what is read: the
bytes that the digits of `t` spell, if it consists of pairs of digits; or else that the number of
its bytes is odd; or else its first byte that is no digit. A request takes the code, or passes the
fault on. So code is read back from its digits in any mixture of cases, with any mark, and between
any blanks. -/
theorem parse_outcomes :
    (∀ s, ∃! t, Bare s t) ∧
    (∀ s t, Bare s t →
      (∀ r, parse s = r ↔ Reading t r) ∧
      ∀ options,
        (∀ request, Request.ofHex s options = .ok request ↔
          Writes t.toList request.code ∧ request.options = options) ∧
        ∀ e, Request.ofHex s options = .error e ↔
          ∃ fault, Reading t (.error fault) ∧ e = .invalidInput (.notHex fault)) ∧
    ∀ (bs : Bytes) (left right mark digits : String), Text.Blank left → Text.Blank right →
      mark ∈ marks → digits.toLower = encode bs →
      parse (left ++ (mark ++ digits) ++ right) = .ok bs ∧
        ∀ options, Request.ofHex (left ++ (mark ++ digits) ++ right) options =
          .ok ⟨bs, options⟩ := by
  refine ⟨fun s => ?_, fun s t ht => ⟨fun r => parse_eq_iff ht, fun options => ⟨?_, ?_⟩⟩, ?_⟩
  · refine ⟨_, bare_iff.mpr rfl, fun t ht => ?_⟩
    exact (bare_iff.mp ht).symm
  · intro request
    rw [ofHex_eq_ok_iff, parse_eq_iff ht, reading_ok_iff]
  · intro e
    simp only [ofHex_eq_error_iff, parse_eq_iff ht]
  · intro bs left right mark digits hleft hright hmark hdigits
    have hwrites := writes_of_toLower hdigits
    have hparse : parse (left ++ (mark ++ digits) ++ right) = .ok bs :=
      (parse_eq_iff (hwrites.bare hleft hright hmark)).mpr (.digits hwrites)
    exact ⟨hparse, fun options => ofHex_eq_ok_iff.mpr ⟨hparse, rfl⟩⟩

/-- A character beyond ASCII counts as its two bytes, of which the first is told; and a byte is read
back from digits of both cases behind a mark. -/
theorem parse_outcomes_twoBytes :
    Bare "\u3000 0X12é\n" "12é" ∧
      parse "\u3000 0X12é\n" = .error (.badDigit 0xC3 2) ∧
      Request.ofHex "\u3000 0X12é\n" .empty =
        .error (.invalidInput (.notHex (.badDigit 0xC3 2))) ∧
      "aB".toLower = encode [0xAB] ∧ parse ("\t" ++ ("0x" ++ "aB") ++ "\u2028") = .ok [0xAB] := by
  obtain ⟨-, hread, hback⟩ := parse_outcomes
  have hblank : Text.Blank "\u3000 " ∧ Text.Blank "\n" ∧ Text.Blank "\t" ∧ Text.Blank "\u2028" := by
    simp [Text.Blank, Text.isBlank, Text.blankRanges]
  obtain ⟨hleft, hright, hleft', hright'⟩ := hblank
  have hnot : ∀ c ∈ "0X12é".toList, Text.isBlank c = false := by
    simp [Text.isBlank, Text.blankRanges]
  have hbare : Bare "\u3000 0X12é\n" "12é" :=
    ⟨"0X12é", Text.trimmed_of_not_blank hleft hright hnot, .inr (.inl rfl)⟩
  have hfirst : Reading "12é" (.error (.badDigit 0xC3 2)) := by
    have hone : ¬NoDigit 0x31 := not_noDigit_of_digit? (rfl : digit? 0x31 = some 1)
    have htwo : ¬NoDigit 0x32 := not_noDigit_of_digit? (rfl : digit? 0x32 = some 2)
    have hbad := FirstBad.head (digit?_eq_none_iff.mp (rfl : digit? 0xC3 = none)) [0xA9]
    exact .bad rfl ((hbad.cons htwo).cons hone)
  have hcase : "aB".toLower = encode [0xAB] := by
    apply String.toList_injective
    rw [toList_toLower]
    decide
  obtain ⟨hparse, hrequest⟩ := hread _ _ hbare
  refine ⟨hbare, (hparse _).mpr hfirst, ((hrequest .empty).2 _).mpr ⟨_, hfirst, rfl⟩, hcase, ?_⟩
  exact (hback [0xAB] "\t" "\u2028" "0x" "aB" hleft' hright' (by decide) hcase).1

end EngineHost.Hex
