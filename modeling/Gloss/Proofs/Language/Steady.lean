import Gloss.Languages
import Gloss.Proofs.Language.Backus
import Gloss.Proofs.Language.Compiled
import Gloss.Proofs.Scan.Renewal

/-!
What the scanners of each language leave as it is. Their handlers are steady, and their main loops change the state, the
children and what they remember about the source, all of which another source sets anew.
-/
namespace Gloss.Language

open Scanner (emptied Renews)
open Text (Source)

namespace C

theorem preprocessor_steady : Handler.Steady preprocessor := by
  intro m
  unfold preprocessor
  grind

theorem grammar_steady : C.grammar.Steady := by
  intro kind handler found
  have listed := Keyed.mem_of_get? found
  rw [grammar_handlers, List.mem_singleton] at listed
  obtain ⟨_, rfl⟩ := Prod.mk.inj listed
  exact preprocessor_steady

end C

namespace Haskell

theorem dashes_steady : Handler.Steady dashes := by
  intro m
  unfold dashes
  grind

theorem grammar_steady : Haskell.grammar.Steady := by
  intro kind handler found
  have listed := Keyed.mem_of_get? found
  rw [grammar_handlers] at listed
  simp only [List.mem_cons, Prod.mk.injEq, List.not_mem_nil, or_false] at listed
  rcases listed with ⟨_, rfl⟩ | ⟨_, rfl⟩
  · exact fun m => Scan.preserves_nestable _ _ _
  · exact dashes_steady

end Haskell

namespace Backus

theorem bracketed_steady (inner : Kind) : Handler.Steady (bracketed inner) := by
  intro m
  unfold bracketed
  grind

theorem ruleHead_steady : Handler.Steady ruleHead := by
  intro m
  unfold ruleHead
  grind

theorem strict_steady : strict.Steady := by
  intro kind handler found
  have listed := Keyed.mem_of_get? found
  rw [strict_handlers] at listed
  simp only [List.mem_cons, Prod.mk.injEq, List.not_mem_nil, or_false] at listed
  rcases listed with ⟨_, rfl⟩ | ⟨_, rfl⟩ | ⟨_, rfl⟩ <;> exact bracketed_steady _

theorem extended_steady : extended.Steady := by
  intro kind handler found
  have listed := Keyed.mem_of_get? found
  rw [extended_handlers, List.mem_singleton] at listed
  obtain ⟨_, rfl⟩ := Prod.mk.inj listed
  exact ruleHead_steady

end Backus

namespace Script

@[grind ←]
theorem preserves_settle (kind : Kind) (m : Match) : Preserves ScanState.isTree (settle kind m) := by
  unfold settle
  grind

@[grind ←]
theorem preserves_treat (g : Grammar) (e : Embedding) (start depth : Nat) (kind : Kind) (m : Match) :
    Preserves Suspend.isTree (treat g e start depth kind m) := by
  unfold treat
  refine (Suspend.preserves_lift (preserves_settle kind m)).bind fun found => ?_
  split
  · grind
  · refine (Suspend.preserves_serverBreak _ _ _ _).bind fun stopped => ?_
    grind

@[grind ←]
theorem preserves_step (g : Grammar) (e : Embedding) : Preserves Suspend.isTree (step g e) := by
  unfold step
  refine (Suspend.preserves_lift (Scan.preserves_ofCursor _)).bind fun start => ?_
  refine (Suspend.preserves_lift Scan.preserves_depth).bind fun depth => ?_
  refine (Suspend.preserves_resume g).bind fun resumed => ?_
  grind

theorem preserves_run (g : Grammar) (e : Embedding) : Preserves Suspend.isTree (run g e) := by
  have loop : ∀ fuel, Preserves Suspend.isTree (loop g e fuel) := by
    intro fuel
    induction fuel with
    | zero => exact preserves_throw _
    | succ fuel ih =>
      unfold loop
      grind
  unfold run
  grind

theorem emptied_put (x : ScriptScanner) (s : ScanState) (y : Suspension) (same : s.isTree = x.state.isTree) :
    emptied { x with state := s, suspension := y } = emptied x := by
  simp only [emptied, Scanner.setSource, ScanState.setSource_congr same]

theorem preserves_main : Preserves emptied ScriptScanner.main := by
  intro x
  have inner : Preserves emptied (zoom (fun y : ScriptScanner => (y.state, y.suspension))
      (fun y t => { y with state := t.1, suspension := t.2 }) (run x.grammar x.embedding)) :=
    (preserves_run _ _).zoom fun y t same => emptied_put y t.1 t.2 same
  exact inner x

theorem renews : Renews (emptied (σ := ScriptScanner)) fun _ => True := by
  refine .of_preserves (fun x a b => ?_) (fun x s => emptied_put x s x.suspension) preserves_main
  simp only [Scanner.setSource, ScanState.setSource_congr (x.state.isTree_setSource a)]

end Script

namespace Style

@[grind =]
theorem emptied_eq (x : StyleScanner) : emptied x =
    { x with state := x.state.setSource (.ofString ""), suspension := {}, expected := .key } := rfl

theorem emptied_put (x : StyleScanner) (s : ScanState) (y : Suspension) (same : s.isTree = x.state.isTree) :
    emptied { x with state := s, suspension := y } = emptied x := by
  simp only [emptied_eq, ScanState.setSource_congr same]

@[grind ←]
theorem preserves_lift {α : Type} {m : ScanM α} (h : Preserves ScanState.isTree m) : Preserves emptied (liftM m : StyleM α) :=
  (Suspend.preserves_lift h).zoom fun x t same => emptied_put x t.1 t.2 same

@[grind ←]
theorem preserves_suspended {α : Type} {m : SuspendM α} (h : Preserves Suspend.isTree m) :
    Preserves emptied (liftM m : StyleM α) :=
  h.zoom fun x t same => emptied_put x t.1 t.2 same

@[grind ←]
theorem preserves_single (kind : Option Kind) : Preserves ScanState.isTree (single kind) := by
  unfold single
  grind

@[grind ←]
theorem preserves_tryToken (condition : Bool) (kind : Kind) (p : Pattern) :
    Preserves ScanState.isTree (tryToken condition kind p) := by
  unfold tryToken
  grind

@[grind ←]
theorem preserves_closeBrace : Preserves ScanState.isTree closeBrace := by
  unfold closeBrace
  grind

@[grind ←]
theorem preserves_closeRegions (regions : List Region) : Preserves ScanState.isTree (closeRegions regions) := by
  induction regions with
  | nil => exact preserves_pure _
  | cons r outer ih =>
    unfold closeRegions
    grind

/-- Attempts that each leave something as it is leave it so together. -/
theorem preserves_firstOf {attempts : List (StyleM (Option Finding))} {last : StyleM Finding}
    (each : ∀ a ∈ attempts, Preserves emptied a) (end_ : Preserves emptied last) :
    Preserves emptied (firstOf attempts last) := by
  induction attempts with
  | nil => exact end_
  | cons a attempts ih =>
    have rest := ih fun b member => each b (List.mem_cons_of_mem _ member)
    refine (each a List.mem_cons_self).bind fun found => ?_
    split
    · exact preserves_pure _
    · exact rest

@[grind ←]
theorem preserves_wordToken (inBlock inMedia : Bool) (expected : Expected) :
    Preserves ScanState.isTree (wordToken inBlock inMedia expected) := by
  unfold wordToken
  grind

@[grind ←]
theorem preserves_mark (c : Char) (inBlock inMedia : Bool) : Preserves emptied (mark c inBlock inMedia) := by
  unfold mark
  grind

@[grind ←]
theorem preserves_next : Preserves emptied next := by
  unfold next
  refine (preserves_lift (Scan.preserves_ofCursor _)).bind fun c => (preserves_lift Scan.preserves_stateName).bind fun state => ?_
  refine preserves_firstOf ?_ (preserves_lift (preserves_single none))
  have try_ (condition : Bool) (kind : Kind) (p : Pattern) :
      Preserves emptied (liftM (tryToken condition kind p) : StyleM (Option Finding)) :=
    preserves_lift (preserves_tryToken condition kind p)
  simp only [List.mem_cons, List.not_mem_nil, or_false, forall_eq_or_imp, forall_eq]
  refine ⟨?server, try_ _ _ _, try_ _ _ _, try_ _ _ _, ?_, ?_, ?_, try_ _ _ _, try_ _ _ _, preserves_mark _ _ _, ?close,
    try_ _ _ _⟩
  case server =>
    refine preserves_get.bind fun x => ?_
    grind
  case close =>
    refine preserves_get.bind fun x => ?_
    grind
  all_goals grind

@[grind ←]
theorem preserves_stepToken : Preserves emptied stepToken := by
  unfold stepToken
  refine (preserves_lift Scan.preserves_skipBlank).bind fun _ => (preserves_lift (Scan.preserves_ofCursor _)).bind fun atEnd => ?_
  split
  · exact preserves_pure _
  · refine (preserves_lift (Scan.preserves_ofCursor _)).bind fun start => (preserves_lift Scan.preserves_depth).bind fun depth =>
      preserves_next.bind fun found => ?_
    split
    · exact preserves_pure _
    · refine preserves_get.bind fun x => ?_
      grind

@[grind ←]
theorem preserves_step : Preserves emptied step := by
  unfold step
  refine preserves_get.bind fun x => ?_
  grind

theorem preserves_main : Preserves emptied main := by
  have loop : ∀ fuel, Preserves emptied (loop fuel) := by
    intro fuel
    induction fuel with
    | zero => exact preserves_get.bind fun _ => preserves_throw _
    | succ fuel ih =>
      unfold loop
      grind
  unfold main
  grind

theorem renews : Renews (emptied (σ := StyleScanner)) fun _ => True := by
  refine .of_preserves (fun x a b => ?_) (fun x s => emptied_put x s x.suspension) preserves_main
  simp only [Scanner.setSource, ScanState.setSource_congr (x.state.isTree_setSource a)]

end Style

namespace Html

@[grind =]
theorem emptied_eq (x : HtmlScanner) : emptied x =
    { x with
      script := ⟨emptied x.script.scanner, none⟩
      style := ⟨emptied x.style.scanner, none⟩
      state := x.state.setSource (.ofString "")
      suspension := {}
      inTag := false
      expected := .attribute
      tagName := "" } := rfl

theorem emptied_put (x : HtmlScanner) (s : ScanState) (y : Suspension) (same : s.isTree = x.state.isTree) :
    emptied { x with state := s, suspension := y } = emptied x := by
  simp only [emptied_eq, ScanState.setSource_congr same]

@[grind ←]
theorem preserves_lift {α : Type} {m : ScanM α} (h : Preserves ScanState.isTree m) : Preserves emptied (liftM m : HtmlM α) :=
  (Suspend.preserves_lift h).zoom fun x t same => emptied_put x t.1 t.2 same

@[grind ←]
theorem preserves_suspended {α : Type} {m : SuspendM α} (h : Preserves Suspend.isTree m) :
    Preserves emptied (liftM m : HtmlM α) :=
  h.zoom fun x t same => emptied_put x t.1 t.2 same

@[grind ←]
theorem preserves_toScript : Preserves emptied toScript := by
  refine Preserves.bind ((Script.renews.preserves_delegate none).zoom fun x t same => ?_) fun _ => preserves_pure _
  obtain ⟨state, child⟩ := Prod.mk.inj same
  simp only [emptied_eq, child, ScanState.setSource_congr state]

@[grind ←]
theorem preserves_toStyle : Preserves emptied toStyle := by
  refine Preserves.bind ((Style.renews.preserves_delegate none).zoom fun x t same => ?_) fun _ => preserves_pure _
  obtain ⟨state, child⟩ := Prod.mk.inj same
  simp only [emptied_eq, child, ScanState.setSource_congr state]

@[grind ←]
theorem preserves_interrupt : Preserves emptied interrupt := preserves_modify fun _ => rfl

@[grind ←]
theorem preserves_atServer : Preserves emptied atServer := by
  unfold atServer
  grind

@[grind ←]
theorem preserves_single : Preserves ScanState.isTree single := by
  unfold single
  grind

@[grind ←]
theorem preserves_tokenOr (kind : Kind) (p : Pattern) : Preserves ScanState.isTree (tokenOr kind p) := by
  unfold tokenOr
  grind

@[grind ←]
theorem preserves_bang : Preserves ScanState.isTree bang := by
  unfold bang
  grind

@[grind ←]
theorem preserves_opening : Preserves emptied opening := by
  unfold opening
  refine preserves_get.bind fun x => ?_
  split
  · refine (preserves_lift (Scan.preserves_onCursor _)).bind fun found => ?_
    split
    · refine (preserves_lift (Scan.preserves_ofCursor _)).bind fun mark =>
        (preserves_lift (Scan.preserves_record _ _)).bind fun _ => ?_
      grind
    · exact preserves_lift preserves_bang
  · grind

@[grind ←]
theorem preserves_closing : Preserves emptied closing := by
  unfold closing
  refine preserves_get.bind fun x => Preserves.bind (preserves_modify fun _ => rfl) fun _ => ?_
  grind

@[grind ←]
theorem preserves_nameToken : Preserves emptied nameToken := by
  unfold nameToken
  refine (preserves_lift (Scan.preserves_onCursor _)).bind fun found => ?_
  split
  · grind
  · refine preserves_get.bind fun x => ?_
    grind

@[grind ←]
theorem preserves_inside (c : Char) : Preserves emptied (inside c) := by
  unfold inside
  split
  · grind
  · refine (preserves_lift (Scan.preserves_onCursor _)).bind fun found => ?_
    grind

@[grind ←]
theorem preserves_next : Preserves emptied next := by
  unfold next
  grind

@[grind ←]
theorem preserves_approach : Preserves emptied approach := by
  unfold approach
  refine preserves_get.bind fun x => ?_
  split
  · grind
  · refine (preserves_lift (Scan.preserves_ofCursor _)).bind fun start => preserves_get.bind fun x => ?_
    grind

@[grind ←]
theorem preserves_stepToken : Preserves emptied stepToken := by
  unfold stepToken
  refine preserves_approach.bind fun more => ?_
  split
  · exact preserves_pure _
  · refine (preserves_lift (Scan.preserves_ofCursor _)).bind fun start => (preserves_lift Scan.preserves_depth).bind fun depth =>
      preserves_next.bind fun found => ?_
    split
    · exact preserves_pure _
    · refine preserves_get.bind fun x => ?_
      grind

@[grind ←]
theorem preserves_step : Preserves emptied step := by
  unfold step
  refine preserves_atServer.bind fun server => ?_
  split
  · grind
  · refine preserves_get.bind fun x => (preserves_suspended (Suspend.preserves_resume _)).bind fun resumed => ?_
    grind

theorem preserves_main : Preserves emptied main := by
  have loop : ∀ fuel, Preserves emptied (loop fuel) := by
    intro fuel
    induction fuel with
    | zero => exact preserves_get.bind fun _ => preserves_throw _
    | succ fuel ih =>
      unfold loop
      grind
  unfold main
  grind

theorem setSource_again (x : HtmlScanner) (a b : Source) :
    Scanner.setSource (Scanner.setSource x a) b = Scanner.setSource x b := by
  simp only [Scanner.setSource, HtmlScanner.setSource, Child.setSource,
    ScanState.setSource_congr (ScanState.isTree_setSource _ a)]

theorem renews : Renews (emptied (σ := HtmlScanner)) fun _ => True :=
  .of_preserves setSource_again (fun x s => emptied_put x s x.suspension) preserves_main

end Html

namespace Php

@[grind ←]
theorem preserves_definition (kind : Kind) : Preserves ScanState.isTree (definition kind) := by
  unfold definition
  refine (Scan.preserves_onCursor _).bind fun found => ?_
  split
  · refine (Scan.preserves_ofCursor _).bind fun name => ?_
    grind
  · exact preserves_pure _

@[grind ←]
theorem preserves_identifier (m : Match) : Preserves ScanState.isTree (identifier m) := by
  unfold identifier
  grind

@[grind ←]
theorem preserves_closeQuote (quote : String) : Preserves ScanState.isTree (closeQuote quote) := by
  unfold closeQuote
  grind

@[grind ←]
theorem preserves_heredocBody (quote name : String) : Preserves ScanState.isTree (heredocBody quote name) := by
  unfold heredocBody
  grind

@[grind ←]
theorem preserves_heredoc : Preserves ScanState.isTree heredoc := by
  unfold heredoc
  refine (Scan.preserves_onCursor _).bind fun found => ?_
  split
  · refine (Scan.preserves_ofCursor _).bind fun quote => (Scan.preserves_ofCursor _).bind fun name => ?_
    grind
  · exact preserves_pure _

@[grind ←]
theorem preserves_takeToken (kind : Kind) (m : Match) : Preserves ScanState.isTree (takeToken kind m) := by
  unfold takeToken
  grind

@[grind ←]
theorem preserves_codeStep (g : Grammar) : Preserves ScanState.isTree (codeStep g) := by
  unfold codeStep
  refine (Scan.preserves_ofCursor _).bind fun start => Scan.preserves_depth.bind fun before =>
    (Scan.preserves_onCursor _).bind fun next => ?_
  split
  · grind
  · refine (Scan.preserves_recordRange _ _ _).bind fun _ => (Scan.preserves_onCursor _).bind fun _ => ?_
    grind

theorem preserves_codeRun (g : Grammar) : Preserves ScanState.isTree (codeRun g) := by
  have loop : ∀ fuel, Preserves ScanState.isTree (codeLoop g fuel) := by
    intro fuel
    induction fuel with
    | zero => exact preserves_throw _
    | succ fuel ih =>
      unfold codeLoop
      grind
  unfold codeRun
  grind

@[grind =]
theorem emptied_eq (x : PhpScanner) : emptied x =
    { x with
      html := ⟨emptied x.html.scanner, none⟩
      code := ⟨emptied x.code.scanner, none⟩
      state := x.state.setSource (.ofString "") } := rfl

theorem code_setSource_again (x : PhpCodeScanner) (a b : Source) :
    Scanner.setSource (Scanner.setSource x a) b = Scanner.setSource x b := by
  simp only [Scanner.setSource, ScanState.setSource_congr (ScanState.isTree_setSource _ a)]

theorem code_renews : Renews (emptied (σ := PhpCodeScanner)) fun _ => True := by
  have put (x : PhpCodeScanner) (s : ScanState) (same : s.isTree = x.state.isTree) :
      emptied { x with state := s } = emptied x := by
    simp only [emptied, Scanner.setSource, ScanState.setSource_congr same]
  refine .of_preserves code_setSource_again put fun x => ?_
  have inner : Preserves emptied (zoom PhpCodeScanner.state (fun y s => { y with state := s }) (codeRun x.grammar)) :=
    (preserves_codeRun _).zoom fun y t same => put y t same
  exact inner x

theorem emptied_put (x : PhpScanner) (s : ScanState) (same : s.isTree = x.state.isTree) :
    emptied { x with state := s } = emptied x := by
  simp only [emptied_eq, ScanState.setSource_congr same]

@[grind ←]
theorem preserves_lift {α : Type} {m : ScanM α} (h : Preserves ScanState.isTree m) : Preserves emptied (liftM m : PhpM α) :=
  h.zoom emptied_put

@[grind ←]
theorem preserves_toHtml : Preserves emptied toHtml := by
  refine Preserves.bind ((Html.renews.preserves_delegate none).zoom fun x t same => ?_) fun _ => preserves_pure _
  obtain ⟨state, child⟩ := Prod.mk.inj same
  simp only [emptied_eq, child, ScanState.setSource_congr state]

@[grind ←]
theorem preserves_toCode (wrap : Option Kind) : Preserves emptied (toCode wrap) := by
  refine Preserves.bind ((code_renews.preserves_delegate wrap).zoom fun x t same => ?_) fun _ => preserves_pure _
  obtain ⟨state, child⟩ := Prod.mk.inj same
  simp only [emptied_eq, child, ScanState.setSource_congr state]

@[grind ←]
theorem preserves_codeBlock (opening : Option String) : Preserves emptied (codeBlock opening) := by
  unfold codeBlock
  grind

@[grind ←]
theorem preserves_round (inCode : Bool) : Preserves emptied (round inCode) := by
  unfold round
  refine (preserves_lift (Scan.preserves_ofCursor _)).bind fun start => (preserves_lift Scan.preserves_depth).bind fun depth => ?_
  grind

theorem preserves_main : Preserves emptied main := by
  have loop : ∀ fuel inCode, Preserves emptied (loop fuel inCode) := by
    intro fuel
    induction fuel with
    | zero => exact fun inCode => preserves_get.bind fun _ => preserves_throw _
    | succ fuel ih =>
      intro inCode
      unfold loop
      grind
  unfold main
  grind

theorem renews : Renews (emptied (σ := PhpScanner)) fun _ => True := by
  refine .of_preserves (fun x a b => ?_) emptied_put preserves_main
  have html := Html.setSource_again x.html.scanner a b
  simp only [Scanner.setSource] at html
  simp only [Scanner.setSource, Child.setSource, html, ScanState.setSource_congr (ScanState.isTree_setSource _ a)]

end Php

namespace Perl

@[grind ←]
theorem preserves_openQuoted (opening : Char) (body : Body) (interpolation : Bool) :
    Preserves ScanState.isTree (openQuoted opening body interpolation) := by
  unfold openQuoted
  grind

@[grind ←]
theorem preserves_recordWords (fuel : Nat) (text : List Char) : Preserves ScanState.isTree (recordWords fuel text) := by
  fun_induction recordWords fuel text with
  | case1 => exact preserves_pure _
  | case2 => exact preserves_pure _
  | case3 => exact (Scan.preserves_record _ _).bind fun _ => by assumption

@[grind ←]
theorem preserves_recordBody (body : Body) (interpolation : Bool) (text : String) :
    Preserves ScanState.isTree (recordBody body interpolation text) := by
  unfold recordBody
  grind

@[grind ←]
theorem preserves_consumeQuoted (body : Body) : Preserves ScanState.isTree (consumeQuoted body) := by
  unfold consumeQuoted
  refine Scan.preserves_region?.bind fun inner => ?_
  split
  · exact preserves_pure _
  split
  · exact preserves_pure _
  refine (Scan.preserves_ofCursor _).bind fun rest => ?_
  split
  · exact preserves_pure _
  · refine (Scan.preserves_ofCursor _).bind fun start => (Scan.preserves_ofCursor _).bind fun text =>
      (preserves_recordBody _ _ _).bind fun _ => ?_
    grind

@[grind ←]
theorem preserves_recordFlags (flags : Pattern) : Preserves ScanState.isTree (recordFlags flags) :=
  Scan.preserves_scanAndRecord _ _

@[grind ←]
theorem preserves_takeSlash (m : Match) : Preserves ScanState.isTree (takeSlash m) := by
  unfold takeSlash
  refine preserves_get.bind fun s => (Scan.preserves_onCursor _).bind fun _ => ?_
  grind

@[grind ←]
theorem preserves_openSecond (opening : Char) (interpolation : Bool) :
    Preserves ScanState.isTree (openSecond opening interpolation) := by
  unfold openSecond
  refine Scan.preserves_skipBlank.bind fun _ => ?_
  grind

@[grind ←]
theorem preserves_secondBody (op : String) (opening : Char) (interpolation : Bool) :
    Preserves ScanState.isTree (secondBody op opening interpolation) := by
  unfold secondBody
  grind

@[grind ←]
theorem preserves_takeQuoteLike (m : Match) : Preserves ScanState.isTree (takeQuoteLike m) := by
  unfold takeQuoteLike
  refine (Scan.preserves_onCursor _).bind fun _ => (Scan.preserves_recordMatch _ _).bind fun _ =>
    (Scan.preserves_ofCursor _).bind fun op => (Scan.preserves_ofCursor _).bind fun delimiter => ?_
  split
  · exact preserves_pure _
  · refine (preserves_openQuoted _ _ _).bind fun _ => ?_
    grind

@[grind ←]
theorem preserves_takeHeredocMark (m : Match) : Preserves ScanState.isTree (takeHeredocMark m) := by
  unfold takeHeredocMark
  refine (Scan.preserves_ofCursor _).bind fun op => (Scan.preserves_ofCursor _).bind fun opening =>
    (Scan.preserves_ofCursor _).bind fun name => ?_
  grind

@[grind ←]
theorem preserves_takeHeredoc (name : String) : Preserves ScanState.isTree (takeHeredoc name) := by
  unfold takeHeredoc
  refine (Scan.preserves_onCursor _).bind fun lineEnd => (Scan.preserves_record _ _).bind fun _ => ?_
  grind

@[grind ←]
theorem preserves_takePod : Preserves ScanState.isTree takePod := by
  unfold takePod
  refine (Scan.preserves_ofCursor _).bind fun start => (Scan.preserves_onCursor _).bind fun _ =>
    (Scan.preserves_onCursor _).bind fun _ => (Scan.preserves_onCursor _).bind fun _ => ?_
  grind

@[grind =]
theorem emptied_eq (x : PerlScanner) : emptied x =
    { x with state := x.state.setSource (.ofString ""), heredoc := none } := rfl

theorem emptied_put (x : PerlScanner) (s : ScanState) (same : s.isTree = x.state.isTree) :
    emptied { x with state := s } = emptied x := by
  simp only [emptied_eq, ScanState.setSource_congr same]

@[grind ←]
theorem preserves_lift {α : Type} {m : ScanM α} (h : Preserves ScanState.isTree m) : Preserves emptied (liftM m : PerlM α) :=
  h.zoom emptied_put

@[grind ←]
theorem preserves_takeMatch (next : NextMatch) : Preserves emptied (takeMatch next) := by
  unfold takeMatch
  grind

@[grind ←]
theorem preserves_heredocFirst (start : Nat) (next : Option NextMatch) : Preserves emptied (heredocFirst start next) := by
  unfold heredocFirst
  refine preserves_get.bind fun x => ?_
  split
  · exact preserves_pure _
  · refine (preserves_lift (Scan.preserves_onCursor _)).bind fun found => ?_
    grind

@[grind ←]
theorem preserves_step : Preserves emptied step := by
  unfold step
  refine (preserves_lift (Scan.preserves_ofCursor _)).bind fun start => (preserves_lift Scan.preserves_depth).bind fun before =>
    preserves_get.bind fun x => (preserves_lift (Scan.preserves_onCursor _)).bind fun next =>
      (preserves_heredocFirst _ _).bind fun first => ?_
  split
  · exact preserves_pure _
  split
  · grind
  · refine (preserves_lift (Scan.preserves_recordRange _ _ _)).bind fun _ => ?_
    grind

theorem preserves_main : Preserves emptied main := by
  have loop : ∀ fuel, Preserves emptied (loop fuel) := by
    intro fuel
    induction fuel with
    | zero => exact preserves_get.bind fun _ => preserves_throw _
    | succ fuel ih =>
      unfold loop
      grind
  unfold main
  grind

theorem renews : Renews (emptied (σ := PerlScanner)) fun _ => True := by
  refine .of_preserves (fun x a b => ?_) emptied_put preserves_main
  simp only [Scanner.setSource, ScanState.setSource_congr (ScanState.isTree_setSource _ a)]

end Perl

namespace Diff

@[grind =]
theorem emptied_eq (x : DiffScanner) : emptied x =
    { x with
      state := x.state.setSource (.ofString "")
      format := .ofText (Source.ofString "").text
      child := none
      newHalf := false } := rfl

theorem emptied_put (x : DiffScanner) (s : ScanState) (same : s.isTree = x.state.isTree) :
    emptied { x with state := s } = emptied x := by
  simp only [emptied_eq, ScanState.setSource_congr same]

@[grind ←]
theorem preserves_lift {α : Type} {m : ScanM α} (h : Preserves ScanState.isTree m) : Preserves emptied (liftM m : DiffM α) :=
  h.zoom emptied_put

@[grind ←]
theorem preserves_header : Preserves emptied header := by
  unfold header
  refine (preserves_lift (Scan.preserves_onCursor _)).bind fun found => ?_
  grind

@[grind ←]
theorem preserves_lineToken : Preserves emptied lineToken := by
  unfold lineToken
  have check (p : Pattern) : Preserves emptied (liftM (Scan.check p) : DiffM (Option Match)) :=
    preserves_lift (Scan.preserves_onCursor _)
  refine preserves_get.bind fun x => (check _).bind fun found => ?_
  split
  · exact preserves_pure _
  refine (check _).bind fun found => ?_
  split
  · grind
  refine (check _).bind fun found => ?_
  split
  · exact preserves_pure _
  refine (check _).bind fun found => ?_
  split
  · exact preserves_pure _
  · grind

@[grind ←]
theorem preserves_blockEnd : Preserves emptied blockEnd := by
  unfold blockEnd
  refine preserves_get.bind fun x => ?_
  grind

@[grind ←]
theorem preserves_recordLines (newHalf first : Bool) (lines : List (List Char × Option (List Char))) :
    Preserves ScanState.isTree (recordLines newHalf first lines) := by
  induction lines generalizing first with
  | nil => exact preserves_pure _
  | cons line lines ih =>
    unfold recordLines
    grind

@[grind ←]
theorem preserves_codeBlock (start stop : Nat) : Preserves emptied (codeBlock start stop) := by
  unfold codeBlock
  refine (preserves_lift (Scan.preserves_ofCursor _)).bind fun block => (preserves_lift (Scan.preserves_onCursor _)).bind fun _ =>
    preserves_get.bind fun x => preserves_lift (preserves_recordLines _ _ _)

@[grind ←]
theorem preserves_step : Preserves emptied step := by
  unfold step
  refine (preserves_lift (Scan.preserves_ofCursor _)).bind fun start => preserves_lineToken.bind fun token => ?_
  split
  · refine (preserves_lift (Scan.preserves_recordRange _ _ _)).bind fun _ => ?_
    grind
  · refine preserves_blockEnd.bind fun stop => ?_
    split
    · grind
    · refine (preserves_lift (Scan.preserves_onCursor _)).bind fun line =>
        (preserves_lift (Scan.preserves_recordRange _ _ _)).bind fun _ => ?_
      grind

theorem preserves_main : Preserves emptied main := by
  have loop : ∀ fuel, Preserves emptied (loop fuel) := by
    intro fuel
    induction fuel with
    | zero => exact preserves_get.bind fun _ => preserves_throw _
    | succ fuel ih =>
      unfold loop
      grind
  unfold main
  grind

theorem renews : Renews (emptied (σ := DiffScanner)) fun _ => True := by
  refine .of_preserves (fun x a b => ?_) emptied_put preserves_main
  simp only [Scanner.setSource, ScanState.setSource_congr (ScanState.isTree_setSource _ a)]

end Diff

end Gloss.Language
