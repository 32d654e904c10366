import Gloss.Proofs.Scan.InStep
import Gloss.Proofs.Scan.Recording

/-!
Streams and trees that record the same. Outside of all regions a scan that records a tree keeps, as children of the
root, one node for each token that a scan with a stream keeps, and with no filters and no rule map a node is rendered as
its token is. So the two answer every call alike, but for one: `start` drops what the stream holds and leaves the tree as
it is. A scan with a tree answers as a scan with a stream on which `start` is never called.
-/
namespace Gloss

open Text (Source)

/-- What may be called on a scanner of either kind outside of all regions. -/
inductive RecordCall where
  | setPos (pos : Nat)
  | record (kind : Option Kind) (text : String)
  | recordMarkup (kind : Option Kind) (text : String)
  | recordRange (start stop : Nat) (kind : Option Kind)
  | recordMatch (kind : Option Kind) (m : Match)
  | recordRest (kind : Option Kind)
  | skipBlank
  | start
  | tagged

/-- Without filters and without a rule map. -/
structure Grammar.IsPlain (g : Grammar) : Prop where
  filters : g.filters = []
  streamFilters : g.streamFilters = []
  ruleMap : g.ruleMap = []

namespace RecordCall

/-- Carries out a call. Rendering alone has an answer. -/
def run (g : Grammar) : RecordCall → ScanM (Option String)
  | .setPos pos => do
    Scan.setPos pos
    return none
  | .record kind text => do
    Scan.record kind text
    return none
  | .recordMarkup kind text => do
    Scan.recordMarkup kind text
    return none
  | .recordRange low high kind => do
    Scan.recordRange low high kind
    return none
  | .recordMatch kind m => do
    Scan.recordMatch kind m
    return none
  | .recordRest kind => do
    Scan.recordRest kind
    return none
  | .skipBlank => do
    Scan.skipBlank
    return none
  | .start => do
    Scan.clearTokens
    return none
  | .tagged => modifyGet fun s => (some (g.tagged s).1, (g.tagged s).2)

/-- A state after a call, also after one that failed. -/
def after (g : Grammar) (s : ScanState) (call : RecordCall) : ScanState := leftBy (call.run g s)

/-- What a caller is told: the answer or the error, and the position behind the call. -/
def answer (g : Grammar) (s : ScanState) (call : RecordCall) : Except ScanError (Option String) × Nat :=
  (givenBy (call.run g s), (call.after g s).pos)

/-- Does the call drop what was recorded? -/
def isStart : RecordCall → Bool
  | .start => true
  | _ => false

/-- A state after calls, also after ones that failed. -/
def afterAll (g : Grammar) (s : ScanState) (calls : List RecordCall) : ScanState :=
  calls.foldl (fun s call => call.after g s) s

/-- What a caller is told about calls, one after another. -/
def answers (g : Grammar) (s : ScanState) : List RecordCall → List (Except ScanError (Option String) × Nat)
  | [] => []
  | call :: rest => call.answer g s :: answers g (call.after g s) rest

end RecordCall

/-- A scan with a stream and one with a tree that have recorded the same. -/
structure Twins (stream tree : ScanState) : Prop where
  cursor : tree.cursor = stream.cursor
  flat : stream.outline = none
  outline : tree.outline = some { latest := stream.tokens.latest.map Outline.nodeOf }

/-- From twins the operation gives the same and leads to twins, also if it fails. -/
def Agrees {α : Type} (m : ScanM α) : Prop :=
  ∀ stream tree, Twins stream tree →
    givenBy (m tree) = givenBy (m stream) ∧ Twins (leftBy (m stream)) (leftBy (m tree))

section Agrees

variable {α β : Type} {m : ScanM α} {f : α → ScanM β}

theorem Agrees.bind (first : Agrees m) (rest : ∀ a, Agrees (f a)) : Agrees (m >>= f) := by
  intro stream tree twins
  have same := first stream tree twins
  simp only [Bind.bind, EStateM.bind]
  cases ranStream : m stream with
  | ok a s =>
    cases ranTree : m tree with
    | ok b t =>
      simp only [ranStream, ranTree, givenBy, leftBy, Except.ok.injEq] at same
      obtain ⟨rfl, twins'⟩ := same
      exact rest _ _ _ twins'
    | error e t => simp [ranStream, ranTree, givenBy] at same
  | error e s =>
    cases ranTree : m tree with
    | ok b t => simp [ranStream, ranTree, givenBy] at same
    | error e' t =>
      simp only [ranStream, ranTree, givenBy, leftBy, Except.error.injEq] at same
      obtain ⟨rfl, twins'⟩ := same
      exact ⟨rfl, twins'⟩

theorem agrees_pure (a : α) : Agrees (pure a : ScanM α) := fun _ _ twins => ⟨rfl, twins⟩

theorem agrees_throw (e : ScanError) : Agrees (throw e : ScanM α) := fun _ _ twins => ⟨rfl, twins⟩

theorem agrees_ite {c : Prop} [Decidable c] {m' : ScanM α} (yes : Agrees m) (no : Agrees m') :
    Agrees (if c then m else m') := by
  split
  · exact yes
  · exact no

theorem agrees_ofCursor (f : Cursor → α) : Agrees (Scan.ofCursor f) := by
  intro stream tree twins
  refine ⟨?_, twins⟩
  show Except.ok (f tree.cursor) = Except.ok (f stream.cursor)
  rw [twins.cursor]

theorem agrees_onCursor (f : Cursor → α × Cursor) : Agrees (Scan.onCursor f) := by
  intro stream tree twins
  constructor
  · show Except.ok (f tree.cursor).1 = Except.ok (f stream.cursor).1
    rw [twins.cursor]
  · exact ⟨congrArg (fun c => (f c).2) twins.cursor, twins.flat, twins.outline⟩

end Agrees

/-- A token that is recorded becomes the latest of the stream and, as a node, of the tree. -/
theorem Twins.record {stream tree : ScanState} (twins : Twins stream tree) (t : Token) :
    Twins (stream.record t) (tree.record t) := by
  obtain ⟨cursor, flat, outline⟩ := twins
  have recorded : tree.record t =
      { tree with outline := some (Outline.record { latest := stream.tokens.latest.map Outline.nodeOf } t) } := by
    simp only [ScanState.record, outline]
  rw [ScanState.record_of_flat flat, recorded]
  refine ⟨cursor, flat, ?_⟩
  simp only [Outline.record_eq, TokenStream.push]
  split <;> rfl

theorem agrees_record (kind : Option Kind) (text : String) : Agrees (Scan.record kind text) :=
  fun _ _ twins => ⟨rfl, twins.record _⟩

theorem agrees_recordMarkup (kind : Option Kind) (text : String) : Agrees (Scan.recordMarkup kind text) :=
  fun _ _ twins => ⟨rfl, twins.record _⟩

theorem agrees_recordRange (start stop : Nat) (kind : Option Kind) : Agrees (Scan.recordRange start stop kind) := by
  have last : Agrees (if start < stop then Scan.slice start stop >>= Scan.record kind else pure ()) :=
    agrees_ite ((agrees_ofCursor _).bind (agrees_record kind)) (agrees_pure ())
  simp only [Scan.recordRange]
  exact agrees_ite ((agrees_throw _).bind fun _ => last) last

theorem agrees_recordMatch (kind : Option Kind) (m : Match) : Agrees (Scan.recordMatch kind m) :=
  (agrees_ofCursor _).bind (agrees_record kind)

theorem agrees_recordRest (kind : Option Kind) : Agrees (Scan.recordRest kind) := by
  refine (agrees_ofCursor _).bind fun ended => agrees_ite ?_ (agrees_pure ())
  exact (agrees_ofCursor _).bind fun text => (agrees_record kind text).bind fun _ => agrees_onCursor _

theorem agrees_skipBlank : Agrees Scan.skipBlank := by
  refine (agrees_ofCursor _).bind fun chars => agrees_ite ?_ (agrees_pure ())
  refine (agrees_ofCursor _).bind fun start => (agrees_ofCursor _).bind fun text => ?_
  exact (agrees_onCursor _).bind fun _ => agrees_record none text

namespace Grammar.IsPlain

variable {g : Grammar} (plain : g.IsPlain)

include plain

/-- The node of a token is rendered as the token. -/
theorem render_nodeOf (ctx : FilterContext) (t : Token) :
    Node.render (g.wrapNode ctx) (Outline.nodeOf t) = Markup.renderToken t := by
  have shown : ∀ k, g.displayKind k = some k := by
    intro k
    rw [Grammar.displayKind, plain.ruleMap]
    rfl
  rw [Outline.render_nodeOf, Grammar.wrapNode_of_unfiltered plain.filters]
  cases isKind : t.kind <;> cases isMarkup : t.escaped <;>
    simp [Markup.renderToken, Markup.escapeToken, Token.markup, shown, isKind, isMarkup]

theorem agrees_tagged : Agrees (RecordCall.run g .tagged) := by
  intro stream tree twins
  obtain ⟨cursor, flat, outline⟩ := twins
  have rendered : ∀ ts : List Token, Node.renderAll (g.wrapNode (g.context tree)) (ts.map Outline.nodeOf) =
      String.join (ts.map Markup.renderToken) := by
    intro ts
    induction ts with
    | nil => rfl
    | cons t ts ih => simp [Node.renderAll, plain.render_nodeOf, ih]
  have left : g.tagged tree = (String.join (stream.tokens.toList.map Markup.renderToken),
      { tree with outline := some {} }) := by
    simp only [Grammar.tagged, outline, Outline.collapse_eq]
    rw [← rendered]
    simp [Outline.finish, Outline.closeEach, TokenStream.toList]
  have right : g.tagged stream = (String.join (stream.tokens.toList.map Markup.renderToken),
      { stream with tokens := {} }) := by
    simp only [Grammar.tagged, flat, Grammar.renderTokens_of_unfiltered plain.filters plain.streamFilters]
  constructor
  · show Except.ok (some (g.tagged tree).1) = Except.ok (some (g.tagged stream).1)
    rw [left, right]
  · show Twins (g.tagged stream).2 (g.tagged tree).2
    rw [left, right]
    exact ⟨cursor, flat, rfl⟩

/-- Every call but `start`. -/
theorem agrees (call : RecordCall) (keeps : call.isStart = false) : Agrees (call.run g) := by
  cases call with
  | setPos pos => exact (agrees_onCursor _).bind fun _ => agrees_pure _
  | record kind text => exact (agrees_record kind text).bind fun _ => agrees_pure _
  | recordMarkup kind text => exact (agrees_recordMarkup kind text).bind fun _ => agrees_pure _
  | recordRange start stop kind => exact (agrees_recordRange start stop kind).bind fun _ => agrees_pure _
  | recordMatch kind m => exact (agrees_recordMatch kind m).bind fun _ => agrees_pure _
  | recordRest kind => exact (agrees_recordRest kind).bind fun _ => agrees_pure _
  | skipBlank => exact agrees_skipBlank.bind fun _ => agrees_pure _
  | start => cases keeps
  | tagged => exact plain.agrees_tagged

end Grammar.IsPlain

/-- Two scans that have not begun, over the same source. -/
theorem twins_fresh (src : Source) : Twins (({} : ScanState).setSource src) (ScanState.emptyTree.setSource src) :=
  ⟨rfl, rfl, rfl⟩

/-- Starting over does nothing to a scan with a tree. -/
theorem Twins.after_start {g : Grammar} {stream tree : ScanState} (twins : Twins stream tree) {call : RecordCall}
    (starts : call.isStart = true) : Twins stream (call.after g tree) := by
  cases call with
  | start => exact ⟨twins.cursor, twins.flat, twins.outline⟩
  | _ => cases starts

section Answers

open RecordCall

variable {g : Grammar} (plain : g.IsPlain)

include plain

theorem Twins.after {stream tree : ScanState} (twins : Twins stream tree) {call : RecordCall}
    (keeps : call.isStart = false) : Twins (call.after g stream) (call.after g tree) :=
  (plain.agrees call keeps stream tree twins).2

theorem Twins.answer_eq {stream tree : ScanState} (twins : Twins stream tree) {call : RecordCall}
    (keeps : call.isStart = false) : call.answer g tree = call.answer g stream := by
  have given := (plain.agrees call keeps stream tree twins).1
  have cursor := (twins.after plain keeps).cursor
  exact Prod.ext given (congrArg Cursor.pos cursor)

/-- The scan with a tree may be told to start over as often as one likes: it stays the twin of the scan with a stream
that is never told so. -/
theorem Twins.afterAll {stream tree : ScanState} (twins : Twins stream tree) (calls : List RecordCall) :
    Twins (afterAll g stream (calls.filter (!·.isStart))) (afterAll g tree calls) := by
  induction calls generalizing stream tree with
  | nil => exact twins
  | cons call calls ih =>
    by_cases starts : call.isStart = true
    · rw [List.filter_cons_of_neg (by simp [starts])]
      exact ih (twins.after_start starts)
    · rw [Bool.not_eq_true] at starts
      rw [List.filter_cons_of_pos (by simp [starts])]
      exact ih (twins.after plain starts)

/-- For a grammar with no filters and no rule map, a scan with a tree answers every call as a scan with a stream that
was told all the same but never to start over. -/
theorem answer_tree_eq (src : Source) (before : List RecordCall) {call : RecordCall} (keeps : call.isStart = false) :
    call.answer g (afterAll g (ScanState.emptyTree.setSource src) before) =
      call.answer g (afterAll g (({} : ScanState).setSource src) (before.filter (!·.isStart))) :=
  ((twins_fresh src).afterAll plain before).answer_eq plain keeps

/-- Where `start` is not called, streams and trees answer alike at every step. -/
theorem answers_tree_eq (src : Source) {calls : List RecordCall} (keep : ∀ call ∈ calls, call.isStart = false) :
    answers g (ScanState.emptyTree.setSource src) calls = answers g (({} : ScanState).setSource src) calls := by
  have agree : ∀ {stream tree : ScanState}, Twins stream tree → answers g tree calls = answers g stream calls := by
    induction calls with
    | nil => exact fun _ => rfl
    | cons call calls ih =>
      intro stream tree twins
      obtain ⟨keeps, keep⟩ := List.forall_mem_cons.mp keep
      rw [answers, answers, twins.answer_eq plain keeps, ih keep (twins.after plain keeps)]
  exact agree (twins_fresh src)

end Answers

/-- A tree keeps what a stream drops at a start. -/
example :
    RecordCall.answers (.bare "BARE") (ScanState.emptyTree.setSource default) [.record none "x", .start, .tagged] =
        [(.ok none, 0), (.ok none, 0), (.ok (some "x"), 0)] ∧
      RecordCall.answers (.bare "BARE") (({} : ScanState).setSource default) [.record none "x", .start, .tagged] =
        [(.ok none, 0), (.ok none, 0), (.ok (some ""), 0)] :=
  ⟨rfl, rfl⟩

end Gloss
