import EngineHost.Proofs.Json.Scanning

/-!
# Places in a text

A place is described by the containers that are open around it, each with the parts that stand
before the place. The text up to a place fixes these parts: whatever bytes follow, the tree that is
scanned in the end has them, and the value at the place where it belongs. The text behind a place
closes the containers, with the parts that stand behind it.
-/

namespace EngineHost.Json

/-! ### Texts up to a place and behind it -/

/-- The texts up to a place where a value is expected, inside these open containers. -/
inductive Lead : List Frame → Bytes → Prop where
  | top {w : Bytes} (hw : Blank w) : Lead [] w
  | firstItem {stack : List Frame} {text w : Bytes} (hlead : Lead stack text) (hw : Blank w) :
    Lead (.items [] :: stack) (text ++ 91 :: w)
  | nextItem {stack : List Frame} {done : List Node} {node : Node} {text item w w' : Bytes}
    (hlead : Lead (.items done :: stack) text) (hnode : Written (.value node) item) (hw : Blank w)
    (hw' : Blank w') : Lead (.items (node :: done) :: stack) (text ++ (item ++ (w ++ 44 :: w')))
  | firstMember {stack : List Frame} {ps : List Piece} {text w key w₁ w₂ : Bytes}
    (hlead : Lead stack text) (hw : Blank w) (hkey : PiecesWritten ps key) (hw₁ : Blank w₁)
    (hw₂ : Blank w₂) :
    Lead (.member [] ⟨ps, .closed⟩ :: stack)
      (text ++ 123 :: (w ++ 34 :: (key ++ 34 :: (w₁ ++ 58 :: w₂))))
  | nextMember {stack : List Frame} {done : List (Quoted × Node)} {q : Quoted} {node : Node}
    {ps : List Piece} {text value w w' key w₁ w₂ : Bytes}
    (hlead : Lead (.member done q :: stack) text) (hnode : Written (.value node) value)
    (hw : Blank w) (hw' : Blank w') (hkey : PiecesWritten ps key) (hw₁ : Blank w₁)
    (hw₂ : Blank w₂) :
    Lead (.member ((q, node) :: done) ⟨ps, .closed⟩ :: stack)
      (text ++ (value ++ (w ++ 44 :: (w' ++ 34 :: (key ++ 34 :: (w₁ ++ 58 :: w₂))))))

/-- A container around a place: the parts before the place, in reverse, and those behind it. -/
inductive Surround where
  | items (done rest : List Node)
  | member (done : List (Quoted × Node)) (key : Quoted) (rest : List (Quoted × Node))

namespace Surround

/-- The container as it is open at the place. -/
def frame : Surround → Frame
  | .items done _ => .items done
  | .member done key _ => .member done key

/-- The container with a value at the place. -/
def fill : Surround → Node → Node
  | .items done rest, v => .array (done.reverse ++ v :: rest) .closed
  | .member done key rest, v => .object (done.reverse ++ (key, v) :: rest) .closed

end Surround

/-- The tree with a value at a place inside these containers, the innermost first. -/
def plug : List Surround → Node → Node
  | [], v => v
  | s :: outer, v => plug outer (s.fill v)

/-- A value is put inside the inner containers, and these inside the outer ones. -/
theorem plug_append (inner outer : List Surround) (v : Node) :
    plug (inner ++ outer) v = plug outer (plug inner v) := by
  induction inner generalizing v with
  | nil => rfl
  | cons s inner ih => exact ih (s.fill v)

/-- The texts behind a place that close the containers around it. -/
inductive Trail : List Surround → Bytes → Prop where
  | top {w : Bytes} (hw : Blank w) : Trail [] w
  | lastItem {outer : List Surround} {done : List Node} {w text : Bytes} (hw : Blank w)
    (htrail : Trail outer text) : Trail (.items done [] :: outer) (w ++ 93 :: text)
  | items {outer : List Surround} {done rest : List Node} {w items text : Bytes} (hw : Blank w)
    (hrest : Written (.items rest) items) (htrail : Trail outer text) :
    Trail (.items done rest :: outer) (w ++ 44 :: (items ++ 93 :: text))
  | lastMember {outer : List Surround} {done : List (Quoted × Node)} {key : Quoted}
    {w text : Bytes} (hw : Blank w) (htrail : Trail outer text) :
    Trail (.member done key [] :: outer) (w ++ 125 :: text)
  | members {outer : List Surround} {done rest : List (Quoted × Node)} {key : Quoted}
    {w members text : Bytes} (hw : Blank w) (hrest : Written (.members rest) members)
    (htrail : Trail outer text) :
    Trail (.member done key rest :: outer) (w ++ 44 :: (members ++ 125 :: text))

namespace Scan

/-- A key between blanks, with its colon. -/
theorem feed_keyText (outer : List Frame) (done : List (Quoted × Node)) (first : Bool)
    {ps : List Piece} {w key w₁ w₂ : Bytes} (hw : Blank w) (hkey : PiecesWritten ps key)
    (hw₁ : Blank w₁) (hw₂ : Blank w₂) :
    feed (.running outer (.key done first)) (w ++ 34 :: (key ++ 34 :: (w₁ ++ 58 :: w₂))) =
      .running (.member done ⟨ps, .closed⟩ :: outer) (.start .plain) := by
  have hmark : push (.running outer (.key done first)) 34 =
      .running outer (.quotedKey done (.between [])) := rfl
  have hcolon : push (.running outer (.colon done ⟨ps, .closed⟩)) 58 =
      .running (.member done ⟨ps, .closed⟩ :: outer) (.start .plain) := rfl
  have hquoted : key ++ 34 :: (w₁ ++ 58 :: w₂) = (key ++ [34]) ++ (w₁ ++ 58 :: w₂) := by simp
  rw [feed_append, feed_key_blank outer done first hw, feed_cons, hmark, hquoted, feed_append,
    feed_quotedKey outer done hkey, feed_append, feed_colon_blank outer done _ hw₁, feed_cons,
    hcolon, feed_start_blank _ _ hw₂]

/-- The comma after a value, with a blank before it. -/
theorem Settled.feed_comma {stack : List Frame} {value : Node} {state : Scan}
    (hsettled : Settled stack value state) {w : Bytes} (hw : Blank w) (rest : Bytes) :
    state.feed (w ++ 44 :: rest) = (pushAfter stack value 44).feed rest := by
  rw [feed_append, feed_cons, (hsettled.feed_blank hw).push (.inr (.inl rfl))]

end Scan

/-- After the text up to a place the scanner expects a value inside the open containers. -/
theorem Lead.feed {stack : List Frame} {text : Bytes} (hlead : Lead stack text) :
    ∃ place, Scan.initial.feed text = .running stack (.start place) := by
  induction hlead with
  | top hw => exact ⟨.plain, Scan.feed_start_blank [] .plain hw⟩
  | @firstItem stack text w _ hw ih =>
    obtain ⟨place, hfeed⟩ := ih
    refine ⟨.firstItem, ?_⟩
    rw [Scan.feed_append, hfeed]
    exact Scan.feed_start_blank (.items [] :: stack) .firstItem hw
  | @nextItem stack done node _ _ _ _ _ hnode hw hw' ih =>
    obtain ⟨place, hfeed⟩ := ih
    refine ⟨.nextItem, ?_⟩
    rw [Scan.feed_append, hfeed, Scan.feed_append,
      (Scan.scanned_of_written hnode _ place).feed_comma hw]
    exact Scan.feed_start_blank (.items (node :: done) :: stack) .nextItem hw'
  | @firstMember stack _ _ _ _ _ _ _ hw hkey hw₁ hw₂ ih =>
    obtain ⟨place, hfeed⟩ := ih
    refine ⟨.plain, ?_⟩
    rw [Scan.feed_append, hfeed]
    exact Scan.feed_keyText stack [] true hw hkey hw₁ hw₂
  | @nextMember stack done q node _ _ _ _ _ _ _ _ _ hnode hw hw' hkey hw₁ hw₂ ih =>
    obtain ⟨place, hfeed⟩ := ih
    refine ⟨.plain, ?_⟩
    rw [Scan.feed_append, hfeed, Scan.feed_append,
      (Scan.scanned_of_written hnode _ place).feed_comma hw]
    exact Scan.feed_keyText stack ((q, node) :: done) false hw' hkey hw₁ hw₂

/-- The text behind a place closes the containers around the value there. -/
theorem Trail.finish {surrounds : List Surround} {text : Bytes} (htrail : Trail surrounds text)
    {v : Node} {state : Scan} (hsettled : Scan.Settled (surrounds.map Surround.frame) v state) :
    (state.feed text).finish = ⟨plug surrounds v, false⟩ := by
  induction htrail generalizing v state with
  | top hw => exact (hsettled.feed_blank hw).finish
  | lastItem hw _ ih =>
    rw [Scan.feed_append, Scan.feed_cons, (hsettled.feed_blank hw).push (.inr (.inr (.inl rfl)))]
    refine ih (.inl ?_)
    simp [Scan.pushAfter, Scan.isBlank, Surround.frame, Surround.fill]
  | @items outer done _ _ _ _ hw hrest _ ih =>
    have hcomma : Scan.pushAfter (.items done :: outer.map Surround.frame) v 44 =
        .running (.items (v :: done) :: outer.map Surround.frame) (.start .nextItem) := rfl
    rw [hsettled.feed_comma hw, List.append_cons, Scan.feed_append, List.map_cons, Surround.frame,
      hcomma, Scan.scanned_of_written hrest]
    refine ih (.inl ?_)
    simp [Surround.fill]
  | lastMember hw _ ih =>
    rw [Scan.feed_append, Scan.feed_cons, (hsettled.feed_blank hw).push (.inr (.inr (.inr rfl)))]
    refine ih (.inl ?_)
    simp [Scan.pushAfter, Scan.isBlank, Surround.frame, Surround.fill]
  | @members outer done _ key _ _ _ hw hrest _ ih =>
    have hcomma : Scan.pushAfter (.member done key :: outer.map Surround.frame) v 44 =
        .running (outer.map Surround.frame) (.key ((key, v) :: done) false) := rfl
    rw [hsettled.feed_comma hw, List.append_cons, Scan.feed_append, List.map_cons, Surround.frame,
      hcomma, Scan.scanned_of_written hrest]
    refine ih (.inl ?_)
    simp [Surround.fill]

/-- The tree of a text with a value at a place. -/
theorem Trail.ofBytes_plug {surrounds : List Surround} {lead text trail : Bytes} {v : Node}
    (htrail : Trail surrounds trail) (hlead : Lead (surrounds.map Surround.frame) lead)
    (hv : Written (.value v) text) :
    Document.ofBytes (lead ++ (text ++ trail)) = ⟨plug surrounds v, false⟩ := by
  obtain ⟨place, hfeed⟩ := hlead.feed
  rw [Document.ofBytes, Scan.feed_append, hfeed, Scan.feed_append]
  exact htrail.finish (Scan.scanned_of_written hv _ place)

/-! ### Whatever follows a place -/

/-- A container that is open at a place has, in the end, this value there. -/
inductive Frame.Holds : Frame → Node → Node → Prop where
  | items {done more : List Node} {ending : ArrayEnd} {v : Node} :
    Holds (.items done) (.array (done.reverse ++ v :: more) ending) v
  | member {done more : List (Quoted × Node)} {key : Quoted} {ending : ObjectEnd} {v : Node} :
    Holds (.member done key) (.object (done.reverse ++ (key, v) :: more) ending) v

/-- A tree has, at the place inside these open containers, this value. -/
inductive At : List Frame → Node → Node → Prop where
  | root {root : Node} : At [] root root
  | inside {stack : List Frame} {frame : Frame} {root outer v : Node} (houter : At stack root outer)
    (hholds : frame.Holds outer v) : At (frame :: stack) root v

/-- A container that is filled holds what it was filled with. -/
theorem Surround.holds_fill (s : Surround) (v : Node) : s.frame.Holds (s.fill v) v := by
  cases s with
  | items done rest => exact .items
  | member done key rest => exact .member

/-- A place in a part of a tree is a place in the tree. -/
theorem At.exists_append {inside outside : List Frame} {root v : Node}
    (hat : At (inside ++ outside) root v) : ∃ w, At inside w v ∧ At outside root w := by
  induction inside generalizing v with
  | nil => exact ⟨v, .root, hat⟩
  | cons frame inside ih =>
    cases hat with
    | inside houter hholds =>
      obtain ⟨w, hinside, houtside⟩ := ih houter
      exact ⟨w, .inside hinside hholds, houtside⟩

/-- A value is at the place where it is put. -/
theorem at_plug (surrounds : List Surround) (v : Node) :
    At (surrounds.map Surround.frame) (plug surrounds v) v := by
  induction surrounds generalizing v with
  | nil => exact .root
  | cons s outer ih => exact .inside (ih (s.fill v)) (s.holds_fill v)

/-- What the value at work can become in the end. -/
def Mode.Becomes : Mode → Node → Prop
  | .after value => fun v => v = value
  | .key done _ => fun v => ∃ more ending, v = .object (done.reverse ++ more) ending
  | .quotedKey done _ => fun v => ∃ more ending, v = .object (done.reverse ++ more) ending
  | .colon done q => fun v =>
    ∃ value more ending, v = .object (done.reverse ++ (q, value) :: more) ending
  | .start _ | .word _ _ | .numeral _ | .quoted _ => fun _ => True

namespace Scan

/-- The trees that a state can still end with. An array in which an item is expected may also end
without it. -/
def MayEnd : Scan → Node → Prop
  | .halted document, root => root = document.root
  | .running stack mode, root =>
    match mode, stack with
    | .start _, .items done :: outer =>
      ∃ more ending, At outer root (.array (done.reverse ++ more) ending)
    | mode, stack => ∃ v, At stack root v ∧ mode.Becomes v

/-- A broken node stands at its place. -/
theorem at_unwind (stack : List Frame) (node : Node) : At stack (unwind stack node) node := by
  induction stack generalizing node with
  | nil => exact .root
  | cons frame stack ih =>
    cases frame with
    | items done =>
      rw [unwind, List.reverse_cons]
      exact .inside (ih _) .items
    | member done key =>
      rw [unwind, List.reverse_cons]
      exact .inside (ih _) .member

/-- Where a value starts, the scan can end with any value there. -/
theorem mayEnd_start_of_at {stack : List Frame} {place : Place} {root v : Node}
    (hat : At stack root v) : MayEnd (.running stack (.start place)) root := by
  cases hat with
  | root => exact ⟨_, .root, trivial⟩
  | inside houter hholds =>
    cases hholds with
    | items => exact ⟨_, _, houter⟩
    | member => exact ⟨_, .inside houter .member, trivial⟩

/-- A scan that has halted ends with what it halted at. -/
theorem at_of_mayEnd_halt {stack : List Frame} {node root : Node}
    (hend : MayEnd (halt stack node) root) : At stack root node := by
  obtain rfl : root = unwind stack node := hend
  exact at_unwind stack node

/-- A finished value stays at its place. -/
theorem at_of_mayEnd_pushAfter {stack : List Frame} {value root : Node} {b : UInt8}
    (hend : MayEnd (pushAfter stack value b) root) : At stack root value := by
  unfold pushAfter at hend
  split at hend
  case isTrue =>
    obtain ⟨v, hat, rfl⟩ := hend
    exact hat
  case isFalse =>
    split at hend
    case h_1 =>
      obtain rfl : root = value := hend
      exact .root
    case h_2 done outer =>
      have hat : ∃ more ending, At outer root (.array (done.reverse ++ value :: more) ending) := by
        split at hend
        case isTrue =>
          obtain ⟨more, ending, hat⟩ := hend
          exact ⟨more, ending, by simpa using hat⟩
        case isFalse =>
          split at hend
          case isTrue =>
            obtain ⟨v, hat, rfl⟩ := hend
            exact ⟨[], .closed, by simpa using hat⟩
          case isFalse => exact ⟨[], .noSeparator, by simpa using at_of_mayEnd_halt hend⟩
      obtain ⟨more, ending, hat⟩ := hat
      exact .inside hat .items
    case h_3 done key outer =>
      have hat : ∃ more ending,
          At outer root (.object (done.reverse ++ (key, value) :: more) ending) := by
        split at hend
        case isTrue =>
          obtain ⟨v, hat, more, ending, rfl⟩ := hend
          exact ⟨more, ending, by simpa using hat⟩
        case isFalse =>
          split at hend
          case isTrue =>
            obtain ⟨v, hat, rfl⟩ := hend
            exact ⟨[], .closed, by simpa using hat⟩
          case isFalse => exact ⟨[], .noSeparator, by simpa using at_of_mayEnd_halt hend⟩
      obtain ⟨more, ending, hat⟩ := hat
      exact .inside hat .member

/-- The first byte of a value rules trees out, and adds none. -/
theorem mayEnd_of_pushStart {stack : List Frame} {place : Place} {root : Node} {b : UInt8}
    (hend : MayEnd (pushStart stack place b) root) :
    MayEnd (.running stack (.start place)) root := by
  unfold pushStart at hend
  split at hend
  · exact hend
  iterate 5
    split at hend
    · obtain ⟨v, hat, -⟩ := hend
      exact mayEnd_start_of_at hat
  split at hend
  · obtain ⟨more, ending, hat⟩ := hend
    exact mayEnd_start_of_at hat
  split at hend
  · obtain ⟨v, hat, -⟩ := hend
    exact mayEnd_start_of_at hat
  split at hend
  · obtain ⟨v, hat, -⟩ := hend
    exact mayEnd_start_of_at hat
  · split at hend
    · obtain ⟨v, hat, rfl⟩ := hend
      exact ⟨[], .closed, by simpa using hat⟩
    · exact ⟨[], .commaClosed, by simpa using at_of_mayEnd_halt hend⟩
    · exact mayEnd_start_of_at (at_of_mayEnd_halt hend)

/-- Where a key is expected, the members before it stay. -/
theorem exists_of_mayEnd_pushKey {stack : List Frame} {done : List (Quoted × Node)} {first : Bool}
    {root : Node} {b : UInt8} (hend : MayEnd (pushKey stack done first b) root) :
    ∃ more ending, At stack root (.object (done.reverse ++ more) ending) := by
  unfold pushKey at hend
  split at hend
  · obtain ⟨v, hat, more, ending, rfl⟩ := hend
    exact ⟨more, ending, hat⟩
  · split at hend
    · obtain ⟨v, hat, more, ending, rfl⟩ := hend
      exact ⟨more, ending, hat⟩
    · split at hend
      · split at hend
        · obtain ⟨v, hat, rfl⟩ := hend
          exact ⟨[], .closed, by simpa using hat⟩
        · exact ⟨[], .commaClosed, by simpa using at_of_mayEnd_halt hend⟩
      · exact ⟨[], .noKey, by simpa using at_of_mayEnd_halt hend⟩

/-- A key that has been read stays where it is. -/
theorem exists_of_at_member {stack : List Frame} {done : List (Quoted × Node)} {key : Quoted}
    {root v : Node} (hat : At (.member done key :: stack) root v) :
    ∃ more ending, At stack root (.object (done.reverse ++ (key, v) :: more) ending) := by
  cases hat with
  | inside houter hholds =>
    cases hholds with
    | member => exact ⟨_, _, houter⟩

/-- What a state can end with after one more byte, it can end with. -/
theorem mayEnd_of_push {state : Scan} {root : Node} {b : UInt8}
    (hend : MayEnd (state.push b) root) : MayEnd state root := by
  cases state with
  | halted document => exact hend
  | running stack mode =>
    cases mode with
    | start place => exact mayEnd_of_pushStart hend
    | word rest atom =>
      cases rest with
      | nil => exact ⟨_, at_of_mayEnd_pushAfter hend, trivial⟩
      | cons letter rest =>
        simp only [push] at hend
        split at hend
        · split at hend
          · obtain ⟨v, hat, -⟩ := hend
            exact ⟨v, hat, trivial⟩
          · exact hend
        · exact ⟨_, at_of_mayEnd_halt hend, trivial⟩
    | numeral n =>
      simp only [push, pushNumeral] at hend
      split at hend
      · exact hend
      · split at hend
        · exact ⟨_, at_of_mayEnd_pushAfter hend, trivial⟩
        · exact ⟨_, at_of_mayEnd_halt hend, trivial⟩
    | quoted q =>
      simp only [push] at hend
      split at hend
      · exact hend
      · split at hend
        · obtain ⟨v, hat, -⟩ := hend
          exact ⟨v, hat, trivial⟩
        · exact ⟨_, at_of_mayEnd_halt hend, trivial⟩
    | after value => exact ⟨value, at_of_mayEnd_pushAfter hend, rfl⟩
    | key done first =>
      obtain ⟨more, ending, hat⟩ := exists_of_mayEnd_pushKey hend
      exact ⟨_, hat, more, ending, rfl⟩
    | quotedKey done q =>
      simp only [push] at hend
      split at hend
      · exact hend
      case h_2 whole _ =>
        split at hend
        · obtain ⟨v, hat, value, more, ending, rfl⟩ := hend
          exact ⟨_, hat, (whole, value) :: more, ending, rfl⟩
        · obtain ⟨more, ending, hat⟩ := exists_of_at_member (at_of_mayEnd_halt hend)
          exact ⟨_, hat, _, ending, rfl⟩
    | colon done key =>
      simp only [push] at hend
      split at hend
      · exact hend
      · split at hend
        · obtain ⟨v, hinside, -⟩ := hend
          obtain ⟨more, ending, hat⟩ := exists_of_at_member hinside
          exact ⟨_, hat, v, more, ending, rfl⟩
        · obtain ⟨more, ending, hat⟩ := exists_of_at_member (at_of_mayEnd_halt hend)
          exact ⟨_, hat, _, more, ending, rfl⟩

/-- At the end of the text, the last value stands where it was completed. -/
theorem at_endAfter (stack : List Frame) (value : Node) :
    At stack (endAfter stack value) value := by
  unfold endAfter
  split
  · exact .root
  · rw [List.reverse_cons]
    exact .inside (at_unwind _ _) .items
  · rw [List.reverse_cons]
    exact .inside (at_unwind _ _) .member

/-- A text that ends here ends with a tree that the state can end with. -/
theorem mayEnd_finish (state : Scan) : MayEnd state state.finish.root := by
  cases state with
  | halted document => rfl
  | running stack mode =>
    simp only [finish]
    cases mode with
    | start place =>
      simp only [endRunning]
      split
      · exact ⟨[], .unfinished, by simpa using at_unwind _ _⟩
      · exact mayEnd_start_of_at (at_unwind _ _)
    | word rest atom => exact ⟨_, at_unwind _ _, trivial⟩
    | numeral n =>
      simp only [endRunning]
      split
      · exact ⟨_, at_endAfter _ _, trivial⟩
      · exact ⟨_, at_unwind _ _, trivial⟩
    | quoted q => exact ⟨_, at_unwind _ _, trivial⟩
    | after value => exact ⟨_, at_endAfter _ _, rfl⟩
    | key done first => exact ⟨_, at_unwind _ _, [], _, by rw [List.append_nil]⟩
    | quotedKey done q =>
      obtain ⟨more, ending, hat⟩ :=
        exists_of_at_member (at_unwind (.member done q.cut :: stack) (.broken .cutMember))
      exact ⟨_, hat, _, ending, rfl⟩
    | colon done key =>
      obtain ⟨more, ending, hat⟩ :=
        exists_of_at_member (at_unwind (.member done key :: stack) (.broken .cutMember))
      exact ⟨_, hat, _, more, ending, rfl⟩

/-- Whatever follows, a text ends with a tree that the state can end with. -/
theorem mayEnd_feed (state : Scan) (rest : Bytes) : MayEnd state (state.feed rest).finish.root := by
  induction rest generalizing state with
  | nil => exact mayEnd_finish state
  | cons b rest ih => exact mayEnd_of_push (ih (state.push b))

end Scan

namespace Lead

variable {stack : List Frame} {lead : Bytes}

/-- The tree of a text is one that the scanner can still end with at any place of the text. -/
theorem mayEnd (hlead : Lead stack lead) (text rest : Bytes) :
    ∃ place, Scan.MayEnd (Scan.feed (.running stack (.start place)) text)
      (Document.ofBytes (lead ++ (text ++ rest))).root := by
  obtain ⟨place, hfeed⟩ := hlead.feed
  refine ⟨place, ?_⟩
  rw [Document.ofBytes, Scan.feed_append, hfeed, Scan.feed_append]
  exact Scan.mayEnd_feed _ rest

/-- A value with a mark behind it is at its place in the tree, whatever follows. -/
theorem at_of_ends (hlead : Lead stack lead) {v : Node} {text w : Bytes}
    (hv : Written (.value v) text) (hw : Blank w) {b : UInt8} (hb : Scan.Ends b) (rest : Bytes) :
    At stack (Document.ofBytes (lead ++ (text ++ (w ++ b :: rest)))).root v := by
  obtain ⟨place, hend⟩ := hlead.mayEnd (text ++ (w ++ [b])) rest
  have hsettled := (Scan.scanned_of_written hv stack place).feed_blank hw
  rw [Scan.feed_append, Scan.feed_append, Scan.feed_cons, hsettled.push hb] at hend
  simpa using Scan.at_of_mayEnd_pushAfter hend

/-- A value other than a number is at its place in the tree, whatever follows. -/
theorem at_of_closed (hlead : Lead stack lead) {v : Node} {text : Bytes}
    (hv : Written (.value v) text) (hclosed : ∀ n, v ≠ .numeral n) (rest : Bytes) :
    At stack (Document.ofBytes (lead ++ (text ++ rest))).root v := by
  obtain ⟨place, hend⟩ := hlead.mayEnd text rest
  obtain hafter | ⟨n, hn, -⟩ := Scan.scanned_of_written hv stack place
  · rw [hafter] at hend
    obtain ⟨v', hat, rfl⟩ := hend
    exact hat
  · exact absurd hn (hclosed n)

/-- A key after a member stands behind it in the tree, whatever follows. -/
theorem exists_at_of_key {done : List (Quoted × Node)} {q : Quoted}
    (hlead : Lead (.member done q :: stack) lead) {node : Node} {ps : List Piece}
    {value w w' key : Bytes} (hnode : Written (.value node) value) (hw : Blank w) (hw' : Blank w')
    (hkey : PiecesWritten ps key) (rest : Bytes) :
    ∃ v, At (.member ((q, node) :: done) ⟨ps, .closed⟩ :: stack)
      (Document.ofBytes (lead ++ (value ++ (w ++ 44 :: (w' ++ 34 :: (key ++ 34 :: rest)))))).root
      v := by
  obtain ⟨place, hend⟩ := hlead.mayEnd (value ++ (w ++ 44 :: (w' ++ 34 :: (key ++ [34])))) rest
  have hcomma : Scan.pushAfter (.member done q :: stack) node 44 =
      .running stack (.key ((q, node) :: done) false) := rfl
  have hmark : Scan.push (.running stack (.key ((q, node) :: done) false)) 34 =
      .running stack (.quotedKey ((q, node) :: done) (.between [])) := rfl
  rw [Scan.feed_append, (Scan.scanned_of_written hnode _ place).feed_comma hw, hcomma,
    Scan.feed_append, Scan.feed_key_blank _ _ _ hw', Scan.feed_cons, hmark,
    Scan.feed_quotedKey _ _ hkey] at hend
  obtain ⟨_, hat, v, more, ending, rfl⟩ := hend
  exact ⟨v, .inside (by simpa using hat) .member⟩

end Lead

end EngineHost.Json
