import EngineHost.Json.Printer
import EngineHost.Proofs.Hex

/-!
# The grammar of JSON texts

Which texts are JSON, and which tree each of them spells. Blanks may stand between any two tokens,
a byte inside a string may stand for itself or be escaped, and hexadecimal digits have either case,
so that a tree has many texts.
-/

namespace EngineHost

namespace Json

/-- The blanks that may stand between tokens: spaces, tabs, line feeds and carriage returns. -/
def Blank (w : Bytes) : Prop := ∀ b ∈ w, b = 32 ∨ b = 9 ∨ b = 10 ∨ b = 13

instance (w : Bytes) : Decidable (Blank w) := List.decidableBAll _ w

/-- The letters that follow a backslash, and the bytes that they stand for. -/
def escapeLetters : List (UInt8 × UInt8) :=
  [(34, 34), (92, 92), (47, 47), (98, 8), (102, 12), (110, 10), (114, 13), (116, 9)]

/-- The texts of a piece of a string. -/
inductive Piece.Written : Piece → Bytes → Prop where
  /-- A byte stands for itself unless it is a control character, the quotation mark or the
  backslash. -/
  | plain {b : UInt8} (hcontrol : 32 ≤ b) (hmark : b ≠ 34) (hslash : b ≠ 92) :
    Written (.plain b) [b]
  /-- A letter escape. -/
  | escape {letter b : UInt8} (hletter : (letter, b) ∈ escapeLetters) :
    Written (.escape b) [92, letter]
  /-- A unit in four hexadecimal digits. -/
  | unit {b₁ b₂ b₃ b₄ d₁ d₂ d₃ d₄ : UInt8} (h₁ : Hex.IsDigit b₁ d₁) (h₂ : Hex.IsDigit b₂ d₂)
    (h₃ : Hex.IsDigit b₃ d₃) (h₄ : Hex.IsDigit b₄ d₄) :
    Written (.unit (((d₁.toNat * 16 + d₂.toNat) * 16 + d₃.toNat) * 16 + d₄.toNat))
      [92, 117, b₁, b₂, b₃, b₄]

/-- The texts of the inside of a string. -/
inductive PiecesWritten : List Piece → Bytes → Prop where
  | nil : PiecesWritten [] []
  | cons {p : Piece} {ps : List Piece} {text rest : Bytes} (hpiece : p.Written text)
    (hrest : PiecesWritten ps rest) : PiecesWritten (p :: ps) (text ++ rest)

/-- Decimal digits, and at least one of them. -/
def Digits (ds : List Nat) : Prop := ds ≠ [] ∧ ∀ d ∈ ds, d < 10

/-- The ASCII bytes of decimal digits. -/
def digitBytes (ds : List Nat) : Bytes := ds.map Decimal.digitByte

/-- The texts of the sign of an exponent. -/
def signBytes : Option Bool → Bytes
  | none => []
  | some false => [43]
  | some true => [45]

/-- The text of the part of a number after the point. -/
inductive FractionWritten : Option (List Nat) → Bytes → Prop where
  | none : FractionWritten none []
  | some {ds : List Nat} (hdigits : Digits ds) : FractionWritten (some ds) (46 :: digitBytes ds)

/-- The texts of the part of a number after the letter `e`, which has either case. -/
inductive ExponentWritten : Option Exponent → Bytes → Prop where
  | none : ExponentWritten none []
  | some {mark : UInt8} {sign : Option Bool} {ds : List Nat} (hmark : mark = 101 ∨ mark = 69)
    (hdigits : Digits ds) :
    ExponentWritten (some ⟨sign, ds⟩) (mark :: (signBytes sign ++ digitBytes ds))

/-- The texts of a number. No digit follows a leading zero. -/
inductive Numeral.Written : Numeral → Bytes → Prop where
  | mk {negative : Bool} {whole : List Nat} {fraction : Option (List Nat)}
    {exponent : Option Exponent} {fractionText exponentText : Bytes} (hwhole : Digits whole)
    (hzero : whole.head? = some 0 → whole = [0]) (hfraction : FractionWritten fraction fractionText)
    (hexponent : ExponentWritten exponent exponentText) :
    Written ⟨negative, whole, fraction, exponent⟩
      ((if negative then [45] else []) ++ (digitBytes whole ++ (fractionText ++ exponentText)))

/-- A part of a JSON text: a value, or what stands between the brackets of an array or the braces
of an object. -/
inductive Phrase where
  | value (node : Node)
  | items (nodes : List Node)
  | members (members : List (Quoted × Node))

/-- The texts of a phrase. -/
inductive Written : Phrase → Bytes → Prop where
  | null : Written (.value .null) nullBytes
  | boolean (b : Bool) : Written (.value (.boolean b)) (booleanBytes b)
  | numeral {n : Numeral} {text : Bytes} (hnumeral : n.Written text) :
    Written (.value (.numeral n)) text
  | quoted {ps : List Piece} {text : Bytes} (hpieces : PiecesWritten ps text) :
    Written (.value (.quoted ⟨ps, .closed⟩)) (34 :: (text ++ [34]))
  | emptyArray {w : Bytes} (hw : Blank w) :
    Written (.value (.array [] .closed)) (91 :: (w ++ [93]))
  | array {nodes : List Node} {text : Bytes} (hitems : Written (.items nodes) text) :
    Written (.value (.array nodes .closed)) (91 :: (text ++ [93]))
  | emptyObject {w : Bytes} (hw : Blank w) :
    Written (.value (.object [] .closed)) (123 :: (w ++ [125]))
  | object {members : List (Quoted × Node)} {text : Bytes}
    (hmembers : Written (.members members) text) :
    Written (.value (.object members .closed)) (123 :: (text ++ [125]))
  | lastItem {node : Node} {w text w' : Bytes} (hw : Blank w)
    (hnode : Written (.value node) text) (hw' : Blank w') :
    Written (.items [node]) (w ++ (text ++ w'))
  | item {node : Node} {nodes : List Node} {w text w' rest : Bytes} (hw : Blank w)
    (hnode : Written (.value node) text) (hw' : Blank w') (hrest : Written (.items nodes) rest) :
    Written (.items (node :: nodes)) (w ++ (text ++ (w' ++ 44 :: rest)))
  | lastMember {ps : List Piece} {node : Node} {w key w₁ w₂ text w' : Bytes} (hw : Blank w)
    (hkey : PiecesWritten ps key) (hw₁ : Blank w₁) (hw₂ : Blank w₂)
    (hnode : Written (.value node) text) (hw' : Blank w') :
    Written (.members [(⟨ps, .closed⟩, node)])
      (w ++ 34 :: (key ++ 34 :: (w₁ ++ 58 :: (w₂ ++ (text ++ w')))))
  | member {ps : List Piece} {node : Node} {members : List (Quoted × Node)}
    {w key w₁ w₂ text w' rest : Bytes} (hw : Blank w)
    (hkey : PiecesWritten ps key) (hw₁ : Blank w₁) (hw₂ : Blank w₂)
    (hnode : Written (.value node) text) (hw' : Blank w')
    (hrest : Written (.members members) rest) :
    Written (.members ((⟨ps, .closed⟩, node) :: members))
      (w ++ 34 :: (key ++ 34 :: (w₁ ++ 58 :: (w₂ ++ (text ++ (w' ++ 44 :: rest))))))

/-- A tree that some text spells. -/
def WellFormed (node : Node) : Prop := ∃ text, Written (.value node) text

/-- The texts of a whole document: a value between blanks. -/
def DocumentWritten (root : Node) (document : Bytes) : Prop :=
  ∃ w text w', Blank w ∧ Written (.value root) text ∧ Blank w' ∧ document = w ++ (text ++ w')

/-- The text of a value is a document. -/
theorem documentWritten_of_written {root : Node} {text : Bytes}
    (htext : Written (.value root) text) : DocumentWritten root text := by
  have hnone : Blank [] := by decide
  exact ⟨[], text, [], hnone, htext, hnone, by simp⟩

end Json

end EngineHost
