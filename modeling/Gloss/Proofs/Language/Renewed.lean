import Gloss.Proofs.Language.Steady

/-!
Scanners carry nothing over from one text to the next. This holds of the scanner of each language and of the scanners that
a grammar alone makes, whatever was done with them before: scans that failed or were interrupted, children that were to
go on, regions left open, and texts that were announced.
-/
namespace Gloss

open Scanner (emptied Renews)
open Text (Source)

namespace Language

namespace Plain

theorem renews : Renews (emptied (σ := PlainScanner)) fun _ => True := by
  have put (x : PlainScanner) (s : ScanState) (same : s.isTree = x.state.isTree) :
      emptied { x with state := s } = emptied x := by
    simp only [emptied, Scanner.setSource, ScanState.setSource_congr same]
  refine .of_preserves (fun x a b => ?_) put ((Scan.preserves_recordRest none).zoom put)
  simp only [Scanner.setSource, ScanState.setSource_congr (ScanState.isTree_setSource _ a)]

end Plain

namespace Backus

namespace BackusScanner

/-- A scanner with an empty source for either dialect. -/
def bare (x : BackusScanner) : BackusScanner :=
  { x with
    isStrict := false
    strictState := x.strictState.setSource (.ofString "")
    extendedState := x.extendedState.setSource (.ofString "") }

variable {x y : BackusScanner}

theorem bare_withState {s : ScanState} (same : s.isTree = x.state.isTree) : (x.withState s).bare = x.bare := by
  simp only [state] at same
  simp only [withState]
  split at same <;> simp_all [bare, ScanState.setSource_congr same]

theorem bare_setSource (source : Source) : (x.setSource source).bare = x.bare := by
  rw [setSource, bare_withState (ScanState.isTree_setSource _ _)]
  rfl

/-- What a source makes of the dialect that it selects. -/
theorem selected_of_bare (same : x.bare = y.bare) (source : Source) :
    (x.setSource source).grammar = (y.setSource source).grammar ∧
      (x.setSource source).state = (y.setSource source).state := by
  simp only [bare, mk.injEq, true_and] at same
  obtain ⟨strictState, extendedState, strictGrammar, extendedGrammar⟩ := same
  have again (s : ScanState) : (s.setSource (.ofString "")).setSource source = s.setSource source :=
    ScanState.setSource_congr (ScanState.isTree_setSource s _) source
  have strictStates := congrArg (ScanState.setSource · source) strictState
  have extendedStates := congrArg (ScanState.setSource · source) extendedState
  simp only [again] at strictStates extendedStates
  simp only [setSource, withState, state, grammar]
  split <;> simp_all

end BackusScanner

/-- What comes of a text is decided by the dialect that it selects. -/
theorem highlight_given (x : BackusScanner) (text : String) :
    givenBy (Scanner.highlight text x) =
      givenBy ((do
        Nested.run (x.setSource (.ofString text)).grammar
        modifyGet (x.setSource (.ofString text)).grammar.tagged : ScanM String) (x.setSource (.ofString text)).state) := by
  simp only [Scanner.highlight_run, Scanner.setSource, Scanner.main, bind, EStateM.bind, zoom]
  cases Nested.run (x.setSource (.ofString text)).grammar (x.setSource (.ofString text)).state with
  | ok _ s =>
    show Except.ok (Scanner.tagged ((x.setSource (.ofString text)).withState s)).1 = Except.ok (Grammar.tagged _ s).1
    simp only [Scanner.tagged, Scanner.grammar, Scanner.state, BackusScanner.grammar_withState,
      BackusScanner.state_withState]
  | error e s => rfl

theorem renews : Renews BackusScanner.bare fun x => x.strictGrammar.Steady ∧ x.extendedGrammar.Steady := by
  refine ⟨fun x y same steady => ?_, fun x => BackusScanner.bare_setSource, fun x s => BackusScanner.bare_withState,
    fun x steady => ?_, fun x y text same => ?_⟩
  · simp only [BackusScanner.bare, BackusScanner.mk.injEq] at same
    obtain ⟨_, _, _, strict_, extended_⟩ := same
    exact strict_ ▸ extended_ ▸ steady
  · have dialect : x.grammar.Steady := by
      simp only [BackusScanner.grammar]
      split
      · exact steady.1
      · exact steady.2
    have inner : Preserves BackusScanner.bare
        (zoom BackusScanner.state BackusScanner.withState (Nested.run x.grammar)) :=
      (Nested.preserves_run dialect).zoom fun y s => BackusScanner.bare_withState
    exact inner.leftBy x
  · obtain ⟨grammars, states⟩ := BackusScanner.selected_of_bare same (.ofString text)
    rw [highlight_given, highlight_given, grammars, states]

end Backus

end Language

namespace AnyScanner

section

variable {σ α : Type} {wrap : σ → AnyScanner}

theorem leftBy_rewrap (result : EStateM.Result ScanError σ α) : leftBy (rewrap wrap result) = wrap (leftBy result) := by
  cases result <;> rfl

theorem givenBy_rewrap (result : EStateM.Result ScanError σ α) : givenBy (rewrap wrap result) = givenBy result := by
  cases result <;> rfl

end

/-- A case of scanners of any language, in which all is done as by the scanner in it. -/
structure Wraps {σ : Type} [Scanner σ] (wrap : σ → AnyScanner) : Prop where
  grammar : ∀ x, Scanner.grammar (wrap x) = Scanner.grammar x := by intros; rfl
  state : ∀ x, Scanner.state (wrap x) = Scanner.state x := by intros; rfl
  withState : ∀ x s, Scanner.withState (wrap x) s = wrap (Scanner.withState x s) := by intros; rfl
  setSource : ∀ x source, Scanner.setSource (wrap x) source = wrap (Scanner.setSource x source) := by intros; rfl
  main : ∀ x, Scanner.main (wrap x) = rewrap wrap (Scanner.main x) := by intros; rfl

namespace Wraps

variable {σ : Type} [Scanner σ] {wrap : σ → AnyScanner}

theorem tagged (h : Wraps wrap) (x : σ) :
    Scanner.tagged (wrap x) = ((Scanner.tagged x).1, wrap (Scanner.tagged x).2) := by
  simp only [Scanner.tagged, h.grammar, h.state, h.withState]

theorem highlight (h : Wraps wrap) (text : String) (x : σ) :
    Scanner.highlight text (wrap x) = rewrap wrap (Scanner.highlight text x) := by
  simp only [Scanner.highlight_run, bind, EStateM.bind, h.setSource, h.main]
  cases Scanner.main (Scanner.setSource x (.ofString text)) with
  | ok _ y =>
    show EStateM.Result.ok (Scanner.tagged (wrap y)).1 (Scanner.tagged (wrap y)).2 = _
    rw [h.tagged]
    rfl
  | error e y => rfl

theorem after (h : Wraps wrap) (x : σ) (call : Call) : Scanner.after (wrap x) call = wrap (Scanner.after x call) := by
  cases call with
  | setSource text => exact h.setSource x _
  | setPos pos => simp only [Scanner.after, Scanner.setPos, h.state, h.withState]
  | main => simp only [Scanner.after, h.main, leftBy_rewrap]
  | tagged => simp only [Scanner.after, h.tagged]
  | highlight text => simp only [Scanner.after, h.highlight, leftBy_rewrap]

theorem after_all (h : Wraps wrap) (x : σ) (calls : List Call) :
    calls.foldl Scanner.after (wrap x) = wrap (calls.foldl Scanner.after x) := by
  induction calls generalizing x with
  | nil => rfl
  | cons call calls ih => rw [List.foldl_cons, List.foldl_cons, h.after, ih]

/-- After any calls on a scanner that renews itself, a text is highlighted as before them. -/
theorem highlight_after (h : Wraps wrap) {made : σ → σ} {Able : σ → Prop} (renews : Renews made Able) {x : σ}
    (able : Able x) (calls : List Call) (text : String) :
    Registry.highlightWith (calls.foldl Scanner.after (wrap x)) text = Registry.highlightWith (wrap x) text := by
  have given (y : AnyScanner) : Registry.highlightWith y text = givenBy (Scanner.highlight text y) := by
    simp only [Registry.highlightWith, givenBy]
    split <;> simp_all
  rw [given, given, h.after_all, h.highlight, h.highlight, givenBy_rewrap, givenBy_rewrap,
    renews.highlight_after able]

end Wraps

/-- A scanner as it is built: that of a language known from the start, or one that a grammar makes whose handlers are
steady. -/
inductive Built : AnyScanner → Prop
  | language {e : Registry.Entry} (known : e ∈ Language.all) (lookup : Language.Diff.Lookup) {x : AnyScanner}
      (made : e.factory lookup = .ok x) : Built x
  | flat {g : Grammar} (steady : g.Steady) : Built (.flat { grammar := g })
  | nested {g : Grammar} (steady : g.Steady) : Built (.nested { grammar := g })

/-- After any calls, a scanner makes the same of a text as when it was built. -/
theorem highlight_built {x : AnyScanner} (built : Built x) (calls : List Call) (text : String) :
    Registry.highlightWith (calls.foldl Scanner.after x) text = Registry.highlightWith x text := by
  cases built with
  | flat steady => exact ({} : Wraps .flat).highlight_after FlatScanner.renews steady calls text
  | nested steady => exact ({} : Wraps .nested).highlight_after NestedScanner.renews steady calls text
  | language known lookup made =>
    simp only [Language.all, List.mem_cons, List.not_mem_nil, or_false] at known
    rcases known with rfl | rfl | rfl | rfl | rfl | rfl | rfl | rfl | rfl | rfl | rfl | rfl | rfl <;> cases made
    · exact ({} : Wraps .plain).highlight_after Language.Plain.renews trivial calls text
    · exact ({} : Wraps .flat).highlight_after FlatScanner.renews Language.C.grammar_steady calls text
    · exact ({} : Wraps .flat).highlight_after FlatScanner.renews Language.Haskell.grammar_steady calls text
    · exact ({} : Wraps .script).highlight_after Language.Script.renews trivial calls text
    · exact ({} : Wraps .script).highlight_after Language.Script.renews trivial calls text
    · exact ({} : Wraps .style).highlight_after Language.Style.renews trivial calls text
    · exact ({} : Wraps .html).highlight_after Language.Html.renews trivial calls text
    · exact ({} : Wraps .php).highlight_after Language.Php.renews trivial calls text
    · exact ({} : Wraps .php).highlight_after Language.Php.renews trivial calls text
    · exact ({} : Wraps .perl).highlight_after Language.Perl.renews trivial calls text
    · exact ({} : Wraps .backus).highlight_after Language.Backus.renews
        ⟨Language.Backus.strict_steady, Language.Backus.extended_steady⟩ calls text
    · exact ({} : Wraps .diff).highlight_after Language.Diff.renews trivial calls text
    · exact ({} : Wraps .diff).highlight_after Language.Diff.renews trivial calls text

theorem highlight_built_dirty :
    Registry.highlightWith
        ([.setSource "<<A", .main, .setPos 1, .highlight "s(", .main].foldl Scanner.after (.perl {})) "1" =
      Registry.highlightWith (.perl {}) "1" ∧
    Registry.highlightWith
        ([.setSource "(", .main].foldl Scanner.after (.nested { grammar := Language.Backus.extended })) ")" =
      Registry.highlightWith (.nested { grammar := Language.Backus.extended }) ")" :=
  ⟨highlight_built (.language (e := Language.perl) (by simp [Language.all]) (fun _ _ => .error .noOpenRegion) rfl) _ _,
    highlight_built (.nested Language.Backus.extended_steady) _ _⟩

end AnyScanner

end Gloss
