import EngineHost.Json.Scan
import EngineHost.Proofs.Json.Grammar

/-!
# The scanner follows the grammar

Fed with a text that spells a tree, the scanner ends with that tree, at any depth and whatever is
already on its stack. A number has no closing mark of its own, so after a number the scanner may
still wait for the byte that ends it; `Settled` covers both states in which a value is complete.
-/

namespace EngineHost

namespace Decimal

/-- The byte of a decimal digit spells that digit. -/
theorem digit?_digitByte {d : Nat} (hd : d < 10) : digit? (digitByte d) = some d := by
  have hall : ∀ d < 10, digit? (digitByte d) = some d := by decide
  exact hall d hd

end Decimal

namespace Json

namespace Scan

/-- No bytes leave the scan as it is. -/
@[simp] theorem feed_nil (state : Scan) : state.feed [] = state := rfl

/-- Bytes are taken one after the other. -/
@[simp] theorem feed_cons (state : Scan) (b : UInt8) (bs : Bytes) :
    state.feed (b :: bs) = (state.push b).feed bs := rfl

/-- The blanks of the grammar are the blanks of the scanner. -/
theorem isBlank_of_mem {w : Bytes} (hw : Blank w) {b : UInt8} (hb : b ∈ w) : isBlank b = true := by
  simpa [isBlank, or_assoc] using hw b hb

/-- A state that no blank changes is not changed by blanks. -/
theorem feed_blank {state : Scan} (hstay : ∀ b, isBlank b = true → state.push b = state)
    {w : Bytes} (hw : Blank w) : state.feed w = state := by
  induction w with
  | nil => rfl
  | cons b w ih =>
    rw [feed_cons, hstay b (isBlank_of_mem hw (List.mem_cons_self ..))]
    exact ih fun c hc => hw c (List.mem_cons_of_mem b hc)

/-- Blanks in front of a value are skipped. -/
theorem feed_start_blank (stack : List Frame) (place : Place) {w : Bytes} (hw : Blank w) :
    feed (.running stack (.start place)) w = .running stack (.start place) :=
  feed_blank (fun b hb => by simp [push, pushStart, hb]) hw

/-- Blanks behind a value are skipped. -/
theorem feed_after_blank (stack : List Frame) (value : Node) {w : Bytes} (hw : Blank w) :
    feed (.running stack (.after value)) w = .running stack (.after value) :=
  feed_blank (fun b hb => by simp [push, pushAfter, hb]) hw

/-- Blanks in front of a key are skipped. -/
theorem feed_key_blank (stack : List Frame) (done : List (Quoted × Node)) (first : Bool) {w : Bytes}
    (hw : Blank w) : feed (.running stack (.key done first)) w = .running stack (.key done first) :=
  feed_blank (fun b hb => by simp [push, pushKey, hb]) hw

/-- Blanks between a key and its colon are skipped. -/
theorem feed_colon_blank (stack : List Frame) (done : List (Quoted × Node)) (key : Quoted)
    {w : Bytes} (hw : Blank w) :
    feed (.running stack (.colon done key)) w = .running stack (.colon done key) :=
  feed_blank (fun b hb => by simp [push, hb]) hw

/-! ### Strings -/

/-- A state that collects a string in `wrap` follows the collection. -/
def Collects (wrap : QuotedProgress → Scan) : Prop :=
  ∀ q b q', q.push b = .inl q' → (wrap q).push b = wrap q'

/-- A string as a value is collected piece by piece. -/
theorem collects_quoted (stack : List Frame) : Collects fun q => .running stack (.quoted q) := by
  intro q b q' hq
  simp [push, hq]

/-- A string as a key is collected piece by piece. -/
theorem collects_quotedKey (stack : List Frame) (done : List (Quoted × Node)) :
    Collects fun q => .running stack (.quotedKey done q) := by
  intro q b q' hq
  simp [push, hq]

/-- The letters of the grammar are the letters of the scanner. -/
theorem escaped?_of_mem {letter b : UInt8} (h : (letter, b) ∈ escapeLetters) :
    letter ≠ 117 ∧ escaped? letter = some b := by
  simp only [escapeLetters, List.mem_cons, Prod.mk.injEq, List.not_mem_nil, or_false] at h
  rcases h with ⟨rfl, rfl⟩ | ⟨rfl, rfl⟩ | ⟨rfl, rfl⟩ | ⟨rfl, rfl⟩ | ⟨rfl, rfl⟩ | ⟨rfl, rfl⟩ |
    ⟨rfl, rfl⟩ | ⟨rfl, rfl⟩ <;> decide

/-- Four hexadecimal digits spell a unit. -/
theorem unit?_of_isDigit {b₁ b₂ b₃ b₄ d₁ d₂ d₃ d₄ : UInt8} (h₁ : Hex.IsDigit b₁ d₁)
    (h₂ : Hex.IsDigit b₂ d₂) (h₃ : Hex.IsDigit b₃ d₃) (h₄ : Hex.IsDigit b₄ d₄) :
    unit? [b₁, b₂, b₃, b₄] =
      some (((d₁.toNat * 16 + d₂.toNat) * 16 + d₃.toNat) * 16 + d₄.toNat) := by
  simp [unit?, Hex.digit?_of_isDigit h₁, Hex.digit?_of_isDigit h₂, Hex.digit?_of_isDigit h₃,
    Hex.digit?_of_isDigit h₄]

/-- A piece is collected from its text. -/
theorem feed_piece {wrap : QuotedProgress → Scan} (hwrap : Collects wrap) {p : Piece} {text : Bytes}
    (hpiece : p.Written text) (done : List Piece) :
    (wrap (.between done)).feed text = wrap (.between (p :: done)) := by
  cases hpiece with
  | plain hcontrol hmark hslash =>
    have hstep : ∀ b : UInt8, 32 ≤ b → b ≠ 34 → b ≠ 92 →
        (QuotedProgress.between done).push b = .inl (.between (.plain b :: done)) := by
      intro b hcontrol hmark hslash
      have hlt : ¬b < 32 := UInt8.not_lt.mpr hcontrol
      simp [QuotedProgress.push, hmark, hslash, hlt]
    exact hwrap _ _ _ (hstep _ hcontrol hmark hslash)
  | escape hletter =>
    obtain ⟨hunit, hescaped⟩ := escaped?_of_mem hletter
    rw [feed_cons, hwrap _ 92 (.escape done) rfl, feed_cons, feed_nil]
    apply hwrap
    simp [QuotedProgress.push, hunit, hescaped]
  | @unit b₁ b₂ b₃ b₄ d₁ d₂ d₃ d₄ h₁ h₂ h₃ h₄ =>
    have hunit := unit?_of_isDigit h₁ h₂ h₃ h₄
    rw [feed_cons, hwrap _ 92 (.escape done) rfl, feed_cons, hwrap _ 117 (.unit done []) rfl,
      feed_cons, hwrap _ b₁ (.unit done [b₁]) rfl, feed_cons, hwrap _ b₂ (.unit done [b₁, b₂]) rfl,
      feed_cons, hwrap _ b₃ (.unit done [b₁, b₂, b₃]) rfl, feed_cons, feed_nil]
    apply hwrap
    simp [QuotedProgress.push, hunit]

/-- Pieces are collected one after the other, the last in front. -/
theorem feed_pieces {wrap : QuotedProgress → Scan} (hwrap : Collects wrap) {ps : List Piece}
    {text : Bytes} (hpieces : PiecesWritten ps text) (done : List Piece) :
    (wrap (.between done)).feed text = wrap (.between (ps.reverse ++ done)) := by
  induction hpieces generalizing done with
  | nil => rfl
  | cons hpiece _ ih =>
    rw [feed_append, feed_piece hwrap hpiece, ih]
    simp

/-- The string of a text that ends with its closing mark. -/
theorem feed_quoted (stack : List Frame) {ps : List Piece} {text : Bytes}
    (hpieces : PiecesWritten ps text) :
    feed (.running stack (.quoted (.between []))) (text ++ [34]) =
      .running stack (.after (.quoted ⟨ps, .closed⟩)) := by
  rw [feed_append, feed_pieces (collects_quoted stack) hpieces]
  simp [push, QuotedProgress.push]

/-- The key of a text that ends with its closing mark. -/
theorem feed_quotedKey (stack : List Frame) (done : List (Quoted × Node)) {ps : List Piece}
    {text : Bytes} (hpieces : PiecesWritten ps text) :
    feed (.running stack (.quotedKey done (.between []))) (text ++ [34]) =
      .running stack (.colon done ⟨ps, .closed⟩) := by
  rw [feed_append, feed_pieces (collects_quotedKey stack done) hpieces]
  simp [push, QuotedProgress.push]

/-! ### Numbers -/

/-- A number grows by a byte that belongs to it. -/
theorem push_numeral {n longer : Numeral} {b : UInt8} (stack : List Frame)
    (hpush : n.push b = some longer) :
    push (.running stack (.numeral n)) b = .running stack (.numeral longer) := by
  simp [push, pushNumeral, hpush]

/-- A number grows by digits as long as each of them belongs to it. The condition is asked of every
way to cut the digits in two, so that it may depend on the digits read before. -/
theorem feed_digitBytes (stack : List Frame) (grown : List Nat → Numeral) (done ds : List Nat)
    (hgrow : ∀ front d back, done ++ ds = front ++ d :: back → d ∈ ds →
      (grown front).push (Decimal.digitByte d) = some (grown (front ++ [d]))) :
    feed (.running stack (.numeral (grown done))) (digitBytes ds) =
      .running stack (.numeral (grown (done ++ ds))) := by
  induction ds generalizing done with
  | nil => simp [digitBytes]
  | cons d ds ih =>
    have hpush := hgrow done d ds rfl (List.mem_cons_self ..)
    have hsplit : done ++ d :: ds = done ++ [d] ++ ds := by simp
    rw [hsplit] at hgrow ⊢
    rw [digitBytes, List.map_cons, feed_cons, push_numeral stack hpush]
    exact ih (done ++ [d]) fun front e back hcut he => hgrow front e back hcut (.tail d he)

/-- Digits before the point. No digit may follow a leading zero. -/
theorem feed_whole (stack : List Frame) (negative : Bool) (done ds : List Nat)
    (hdigits : ∀ d ∈ ds, d < 10) (hzero : (done ++ ds).head? = some 0 → done ++ ds = [0]) :
    feed (.running stack (.numeral { negative := negative, whole := done })) (digitBytes ds) =
      .running stack (.numeral { negative := negative, whole := done ++ ds }) := by
  refine feed_digitBytes stack (fun whole => { negative := negative, whole := whole }) done ds ?_
  intro front d back hcut hd
  have hfront : front ≠ [0] := by
    rintro rfl
    rw [hcut] at hzero
    have hlength := congrArg List.length (hzero rfl)
    simp at hlength
  simp [Numeral.push, Decimal.digit?_digitByte (hdigits d hd), hfront]

/-- Digits after the point. -/
theorem feed_fraction (stack : List Frame) (negative : Bool) (whole ds : List Nat)
    (hdigits : ∀ d ∈ ds, d < 10) :
    feed (.running stack (.numeral ⟨negative, whole, some [], none⟩)) (digitBytes ds) =
      .running stack (.numeral ⟨negative, whole, some ds, none⟩) := by
  refine feed_digitBytes stack (fun fraction => ⟨negative, whole, some fraction, none⟩) [] ds ?_
  intro front d back _ hd
  simp [Numeral.push, Decimal.digit?_digitByte (hdigits d hd)]

/-- Digits of the exponent. -/
theorem feed_exponent (stack : List Frame) (negative : Bool) (whole : List Nat)
    (fraction : Option (List Nat)) (sign : Option Bool) (ds : List Nat)
    (hdigits : ∀ d ∈ ds, d < 10) :
    feed (.running stack (.numeral ⟨negative, whole, fraction, some ⟨sign, []⟩⟩)) (digitBytes ds) =
      .running stack (.numeral ⟨negative, whole, fraction, some ⟨sign, ds⟩⟩) := by
  refine feed_digitBytes stack
    (fun digits => ⟨negative, whole, fraction, some ⟨sign, digits⟩⟩) [] ds ?_
  intro front d back _ hd
  simp [Numeral.push, Decimal.digit?_digitByte (hdigits d hd)]

/-- The part after the point, if there is one. -/
theorem feed_fractionWritten (stack : List Frame) (negative : Bool) {whole : List Nat}
    (hwhole : whole ≠ []) {fraction : Option (List Nat)} {text : Bytes}
    (hfraction : FractionWritten fraction text) :
    feed (.running stack (.numeral ⟨negative, whole, none, none⟩)) text =
      .running stack (.numeral ⟨negative, whole, fraction, none⟩) := by
  cases hfraction with
  | none => rfl
  | some hdigits =>
    have hpoint : Numeral.push ⟨negative, whole, none, none⟩ 46 =
        some ⟨negative, whole, some [], none⟩ := by
      have hbyte : Decimal.digit? 46 = none := by decide
      simp [Numeral.push, hbyte, hwhole]
    rw [feed_cons, push_numeral stack hpoint, feed_fraction _ _ _ _ hdigits.2]

/-- The part after the letter `e`, if there is one. -/
theorem feed_exponentWritten (stack : List Frame) (negative : Bool) {whole : List Nat}
    (hwhole : whole ≠ []) {fraction : Option (List Nat)} (hfraction : fraction ≠ some [])
    {exponent : Option Exponent} {text : Bytes} (hexponent : ExponentWritten exponent text) :
    feed (.running stack (.numeral ⟨negative, whole, fraction, none⟩)) text =
      .running stack (.numeral ⟨negative, whole, fraction, exponent⟩) := by
  cases hexponent with
  | none => rfl
  | @some mark sign ds hmark hdigits =>
    have hletter : Numeral.push ⟨negative, whole, fraction, none⟩ mark =
        some ⟨negative, whole, fraction, some ⟨none, []⟩⟩ := by
      have hbyte : Decimal.digit? mark = none ∧ mark ≠ 46 ∧ Numeral.isExponentMark mark = true := by
        rcases hmark with rfl | rfl <;> decide
      rcases fraction with _ | ds
      · simp [Numeral.push, hbyte, hwhole]
      · have hds : ds ≠ [] := fun hnil => hfraction (by rw [hnil])
        simp [Numeral.push, hbyte, hds]
    have hsign : feed (.running stack (.numeral ⟨negative, whole, fraction, some ⟨none, []⟩⟩))
        (signBytes sign) =
        .running stack (.numeral ⟨negative, whole, fraction, some ⟨sign, []⟩⟩) := by
      have hbytes : Decimal.digit? 43 = none ∧ Decimal.digit? 45 = none := by decide
      rcases sign with _ | _ | _
      · rfl
      · have hplus : Numeral.push ⟨negative, whole, fraction, some ⟨none, []⟩⟩ 43 =
            some ⟨negative, whole, fraction, some ⟨some false, []⟩⟩ := by
          simp [Numeral.push, hbytes]
        exact push_numeral stack hplus
      · have hminus : Numeral.push ⟨negative, whole, fraction, some ⟨none, []⟩⟩ 45 =
            some ⟨negative, whole, fraction, some ⟨some true, []⟩⟩ := by
          simp [Numeral.push, hbytes]
        exact push_numeral stack hminus
    rw [feed_cons, push_numeral stack hletter, feed_append, hsign,
      feed_exponent _ _ _ _ _ _ hdigits.2]

/-- A digit where a value should start. -/
theorem push_start_digit (stack : List Frame) (place : Place) {d : Nat} (hd : d < 10) :
    push (.running stack (.start place)) (Decimal.digitByte d) =
      .running stack (.numeral { whole := [d] }) := by
  have hall : ∀ d < 10, isBlank (Decimal.digitByte d) = false ∧ Decimal.digitByte d ≠ 110 ∧
      Decimal.digitByte d ≠ 116 ∧ Decimal.digitByte d ≠ 102 ∧ Decimal.digitByte d ≠ 45 ∧
      Decimal.digitByte d ≠ 34 ∧ Decimal.digitByte d ≠ 91 ∧ Decimal.digitByte d ≠ 123 := by decide
  simp [push, pushStart, hall d hd, Decimal.digit?_digitByte hd]

/-- The digits of a number are read up to its last byte, and the number is complete. -/
theorem feed_numeralWritten (stack : List Frame) (place : Place) {n : Numeral} {text : Bytes}
    (hnumeral : n.Written text) :
    n.complete = true ∧
      feed (.running stack (.start place)) text = .running stack (.numeral n) := by
  cases hnumeral with
  | @mk negative whole fraction exponent fractionText exponentText hwhole hzero hfraction
      hexponent =>
    have hfractionDigits : fraction ≠ some [] := by
      rintro rfl
      cases hfraction with
      | some hdigits => exact hdigits.1 rfl
    constructor
    · cases hexponent with
      | some _ hdigits => simp [Numeral.complete, hdigits.1]
      | none =>
        rcases fraction with _ | ds
        · simp [Numeral.complete, hwhole.1]
        · have hds : ds ≠ [] := fun hnil => hfractionDigits (by rw [hnil])
          simp [Numeral.complete, hds]
    · have hfront : feed (.running stack (.start place))
          ((if negative then [45] else []) ++ digitBytes whole) =
          .running stack (.numeral ⟨negative, whole, none, none⟩) := by
        cases negative with
        | true =>
          change feed (.running stack (.numeral { negative := true })) (digitBytes whole) = _
          exact feed_whole stack true [] whole hwhole.2 hzero
        | false =>
          obtain ⟨hne, hdigits⟩ := hwhole
          cases whole with
          | nil => exact absurd rfl hne
          | cons d ds =>
            change feed (push (.running stack (.start place)) (Decimal.digitByte d))
              (digitBytes ds) = _
            rw [push_start_digit stack place (hdigits d (List.mem_cons_self ..))]
            exact feed_whole stack false [d] ds
              (fun e he => hdigits e (List.mem_cons_of_mem d he)) hzero
      rw [← List.append_assoc, feed_append, hfront, feed_append,
        feed_fractionWritten stack negative hwhole.1 hfraction,
        feed_exponentWritten stack negative hwhole.1 hfractionDigits hexponent]

/-! ### Values -/

/-- A value is complete on top of this stack. After a number the scanner may still wait for the
byte that ends it. -/
def Settled (stack : List Frame) (value : Node) (state : Scan) : Prop :=
  state = .running stack (.after value) ∨
    ∃ n, value = .numeral n ∧ n.complete = true ∧ state = .running stack (.numeral n)

/-- The bytes that may follow a value. -/
def Ends (b : UInt8) : Prop := isBlank b = true ∨ b = 44 ∨ b = 93 ∨ b = 125

/-- A byte that may follow a value does not go on with a numeral. -/
theorem not_numeral_of_ends {b : UInt8} (hb : Ends b) :
    Decimal.digit? b = none ∧ b ≠ 46 ∧ b ≠ 43 ∧ b ≠ 45 ∧ Numeral.isExponentMark b = false := by
  unfold Ends isBlank at hb
  simp only [Bool.or_eq_true, decide_eq_true_eq, or_assoc] at hb
  rcases hb with rfl | rfl | rfl | rfl | rfl | rfl | rfl <;> decide

/-- The byte after a value finds the value finished, a number too. -/
theorem Settled.push {stack : List Frame} {value : Node} {state : Scan}
    (hsettled : Settled stack value state) {b : UInt8} (hb : Ends b) :
    state.push b = pushAfter stack value b := by
  obtain rfl | ⟨n, rfl, hcomplete, rfl⟩ := hsettled
  · rfl
  · obtain ⟨hdigit, hpoint, hplus, hminus, hmark⟩ := not_numeral_of_ends hb
    have hpush : n.push b = none := by
      unfold Numeral.push
      split <;> simp [hdigit, hpoint, hplus, hminus, hmark]
    have hzero : n.leadingZero b = false := by simp [Numeral.leadingZero, hdigit]
    simp [Scan.push, pushNumeral, hpush, hcomplete, hzero]

/-- Blanks after a value leave it complete. -/
theorem Settled.feed_blank {stack : List Frame} {value : Node} {state : Scan}
    (hsettled : Settled stack value state) {w : Bytes} (hw : Blank w) :
    Settled stack value (state.feed w) := by
  cases w with
  | nil => exact hsettled
  | cons b w =>
    have hb := isBlank_of_mem hw (List.mem_cons_self ..)
    have hafter : state.push b = .running stack (.after value) := by
      rw [hsettled.push (.inl hb)]
      simp [pushAfter, hb]
    left
    rw [feed_cons, hafter]
    exact feed_after_blank stack value fun c hc => hw c (List.mem_cons_of_mem b hc)

/-- A text that ends after a value has that value as its tree. -/
theorem Settled.finish {value : Node} {state : Scan} (hsettled : Settled [] value state) :
    state.finish = ⟨value, false⟩ := by
  obtain rfl | ⟨n, rfl, hcomplete, rfl⟩ := hsettled
  · rfl
  · simp [Scan.finish, endRunning, hcomplete, endAfter]

/-- What the scanner makes of a phrase: a value is complete after it, and the items or members of
a container are all there after its closing mark. -/
def Scanned : Phrase → Bytes → Prop
  | .value node, text =>
    ∀ stack place, Settled stack node (feed (.running stack (.start place)) text)
  | .items nodes, text =>
    ∀ outer done place, feed (.running (.items done :: outer) (.start place)) (text ++ [93]) =
      .running outer (.after (.array (done.reverse ++ nodes) .closed))
  | .members members, text =>
    ∀ outer done first, feed (.running outer (.key done first)) (text ++ [125]) =
      .running outer (.after (.object (done.reverse ++ members) .closed))

/-- An item between blanks. -/
theorem Scanned.feed_item {node : Node} {w text w' : Bytes} (hw : Blank w)
    (hnode : Scanned (.value node) text) (hw' : Blank w') (stack : List Frame) (place : Place) :
    Settled stack node (feed (.running stack (.start place)) (w ++ (text ++ w'))) := by
  rw [feed_append, feed_start_blank stack place hw, feed_append]
  exact (hnode stack place).feed_blank hw'

/-- A key and its value, with blanks around each. -/
theorem Scanned.feed_member {ps : List Piece} {node : Node} {w key w₁ w₂ text w' : Bytes}
    (hw : Blank w) (hkey : PiecesWritten ps key) (hw₁ : Blank w₁) (hw₂ : Blank w₂)
    (hnode : Scanned (.value node) text) (hw' : Blank w') (outer : List Frame)
    (done : List (Quoted × Node)) (first : Bool) :
    Settled (.member done ⟨ps, .closed⟩ :: outer) node (feed (.running outer (.key done first))
      (w ++ 34 :: (key ++ 34 :: (w₁ ++ 58 :: (w₂ ++ (text ++ w')))))) := by
  have hmark : push (.running outer (.key done first)) 34 =
      .running outer (.quotedKey done (.between [])) := rfl
  have hcolon : push (.running outer (.colon done ⟨ps, .closed⟩)) 58 =
      .running (.member done ⟨ps, .closed⟩ :: outer) (.start .plain) := rfl
  have hquoted : (key ++ 34 :: (w₁ ++ 58 :: (w₂ ++ (text ++ w')))) =
      (key ++ [34]) ++ (w₁ ++ 58 :: (w₂ ++ (text ++ w'))) := by simp
  rw [feed_append, feed_key_blank outer done first hw, feed_cons, hmark, hquoted, feed_append,
    feed_quotedKey outer done hkey, feed_append, feed_colon_blank outer done _ hw₁, feed_cons,
    hcolon]
  exact Scanned.feed_item hw₂ hnode hw' _ _

/-- The items of an array, between its brackets. -/
theorem Scanned.array {nodes : List Node} {text : Bytes} (hitems : Scanned (.items nodes) text) :
    Scanned (.value (.array nodes .closed)) (91 :: (text ++ [93])) :=
  fun stack _ => .inl (hitems stack [] .firstItem)

/-- The members of an object, between its braces. -/
theorem Scanned.object {members : List (Quoted × Node)} {text : Bytes}
    (hmembers : Scanned (.members members) text) :
    Scanned (.value (.object members .closed)) (123 :: (text ++ [125])) :=
  fun stack _ => .inl (hmembers stack [] true)

/-- An array without items. -/
theorem Scanned.emptyArray {w : Bytes} (hw : Blank w) :
    Scanned (.value (.array [] .closed)) (91 :: (w ++ [93])) := by
  intro stack place
  left
  change feed (.running (.items [] :: stack) (.start .firstItem)) _ = _
  rw [feed_append, feed_start_blank _ _ hw]
  rfl

/-- An object without members. -/
theorem Scanned.emptyObject {w : Bytes} (hw : Blank w) :
    Scanned (.value (.object [] .closed)) (123 :: (w ++ [125])) := by
  intro stack place
  left
  change feed (.running stack (.key [] true)) _ = _
  rw [feed_append, feed_key_blank _ _ _ hw]
  rfl

/-- The last item of an array. -/
theorem Scanned.lastItem {node : Node} {w text w' : Bytes} (hw : Blank w)
    (hnode : Scanned (.value node) text) (hw' : Blank w') :
    Scanned (.items [node]) (w ++ (text ++ w')) := by
  intro outer done place
  rw [feed_append, feed_cons, (hnode.feed_item hw hw' _ place).push (.inr (.inr (.inl rfl)))]
  simp [pushAfter, isBlank]

/-- An item of an array, and the items after its comma. -/
theorem Scanned.item {node : Node} {nodes : List Node} {w text w' rest : Bytes} (hw : Blank w)
    (hnode : Scanned (.value node) text) (hw' : Blank w') (hrest : Scanned (.items nodes) rest) :
    Scanned (.items (node :: nodes)) (w ++ (text ++ (w' ++ 44 :: rest))) := by
  intro outer done place
  have hsplit : w ++ (text ++ (w' ++ 44 :: rest)) ++ [93] =
      (w ++ (text ++ w')) ++ 44 :: (rest ++ [93]) := by simp
  have hcomma : pushAfter (.items done :: outer) node 44 =
      .running (.items (node :: done) :: outer) (.start .nextItem) := rfl
  rw [hsplit, feed_append, feed_cons, (hnode.feed_item hw hw' _ place).push (.inr (.inl rfl)),
    hcomma, hrest outer (node :: done) .nextItem]
  simp

/-- The last member of an object. -/
theorem Scanned.lastMember {ps : List Piece} {node : Node} {w key w₁ w₂ text w' : Bytes}
    (hw : Blank w) (hkey : PiecesWritten ps key) (hw₁ : Blank w₁) (hw₂ : Blank w₂)
    (hnode : Scanned (.value node) text) (hw' : Blank w') :
    Scanned (.members [(⟨ps, .closed⟩, node)])
      (w ++ 34 :: (key ++ 34 :: (w₁ ++ 58 :: (w₂ ++ (text ++ w'))))) := by
  intro outer done first
  rw [feed_append, feed_cons,
    (hnode.feed_member hw hkey hw₁ hw₂ hw' outer done first).push (.inr (.inr (.inr rfl)))]
  simp [pushAfter, isBlank]

/-- A member of an object, and the members after its comma. -/
theorem Scanned.member {ps : List Piece} {node : Node} {members : List (Quoted × Node)}
    {w key w₁ w₂ text w' rest : Bytes} (hw : Blank w) (hkey : PiecesWritten ps key)
    (hw₁ : Blank w₁) (hw₂ : Blank w₂) (hnode : Scanned (.value node) text) (hw' : Blank w')
    (hrest : Scanned (.members members) rest) :
    Scanned (.members ((⟨ps, .closed⟩, node) :: members))
      (w ++ 34 :: (key ++ 34 :: (w₁ ++ 58 :: (w₂ ++ (text ++ (w' ++ 44 :: rest)))))) := by
  intro outer done first
  have hsplit : w ++ 34 :: (key ++ 34 :: (w₁ ++ 58 :: (w₂ ++ (text ++ (w' ++ 44 :: rest))))) ++
      [125] = (w ++ 34 :: (key ++ 34 :: (w₁ ++ 58 :: (w₂ ++ (text ++ w'))))) ++
      44 :: (rest ++ [125]) := by simp
  have hcomma : pushAfter (.member done ⟨ps, .closed⟩ :: outer) node 44 =
      .running outer (.key ((⟨ps, .closed⟩, node) :: done) false) := rfl
  rw [hsplit, feed_append, feed_cons,
    (hnode.feed_member hw hkey hw₁ hw₂ hw' outer done first).push (.inr (.inl rfl)), hcomma,
    hrest outer _ false]
  simp

/-- The scanner follows the grammar. -/
theorem scanned_of_written {phrase : Phrase} {text : Bytes} (hwritten : Written phrase text) :
    Scanned phrase text := by
  induction hwritten with
  | null => exact fun stack place => .inl rfl
  | boolean b => exact fun stack place => .inl (by cases b <;> rfl)
  | numeral hnumeral =>
    intro stack place
    obtain ⟨hcomplete, hfeed⟩ := feed_numeralWritten stack place hnumeral
    exact .inr ⟨_, rfl, hcomplete, hfeed⟩
  | quoted hpieces => exact fun stack place => .inl (feed_quoted stack hpieces)
  | emptyArray hw => exact .emptyArray hw
  | array _ ih => exact ih.array
  | emptyObject hw => exact .emptyObject hw
  | object _ ih => exact ih.object
  | lastItem hw _ hw' ih => exact .lastItem hw ih hw'
  | item hw _ hw' _ ih ihrest => exact .item hw ih hw' ihrest
  | lastMember hw hkey hw₁ hw₂ _ hw' ih => exact .lastMember hw hkey hw₁ hw₂ ih hw'
  | member hw hkey hw₁ hw₂ _ hw' _ ih ihrest => exact .member hw hkey hw₁ hw₂ ih hw' ihrest

end Scan

/-- A document is read as the tree that it spells, with nothing behind it. -/
theorem Document.ofBytes_of_written {root : Node} {document : Bytes}
    (hdocument : DocumentWritten root document) : Document.ofBytes document = ⟨root, false⟩ := by
  obtain ⟨w, text, w', hw, hroot, hw', rfl⟩ := hdocument
  exact ((Scan.scanned_of_written hroot).feed_item hw hw' [] .plain).finish

/-! ### Values that nobody reads -/

/-- A string that is closed can be skipped. -/
@[simp] theorem Quoted.check_closed (ps : List Piece) : Quoted.check ⟨ps, .closed⟩ = .ok () := rfl

/-- A phrase that is skipped without a fault. -/
def Faultless : Phrase → Prop
  | .value node => node.check = .ok ()
  | .items nodes => Node.checkItems .closed nodes = .ok ()
  | .members ms => Node.checkMembers .closed ms = .ok ()

/-- Every phrase of the grammar is free of faults. -/
theorem faultless_of_written {phrase : Phrase} {text : Bytes} (hwritten : Written phrase text) :
    Faultless phrase := by
  induction hwritten with
  | null => rfl
  | boolean b => rfl
  | numeral _ => rfl
  | quoted _ => rfl
  | emptyArray _ => rfl
  | array _ ih => exact ih
  | emptyObject _ => rfl
  | object _ ih => exact ih
  | lastItem _ _ _ ih =>
    simp only [Faultless] at ih ⊢
    simp [Node.checkItems, ih, ArrayEnd.unchecked?, raise?]
  | item _ _ _ _ ih ihrest =>
    simp only [Faultless] at ih ihrest ⊢
    simp [Node.checkItems, ih, ihrest]
  | lastMember _ _ _ _ _ _ ih =>
    simp only [Faultless] at ih ⊢
    simp [Node.checkMembers, ih, ObjectEnd.unchecked?, raise?]
  | member _ _ _ _ _ _ _ ih ihrest =>
    simp only [Faultless] at ih ihrest ⊢
    simp [Node.checkMembers, ih, ihrest]

/-- A tree that some text spells is skipped without a fault. -/
theorem WellFormed.check_eq_ok {node : Node} (hnode : WellFormed node) : node.check = .ok () := by
  obtain ⟨text, hwritten⟩ := hnode
  exact faultless_of_written hwritten

end Json

end EngineHost
