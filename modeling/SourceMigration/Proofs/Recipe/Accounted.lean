import SourceMigration.Migration
import SourceMigration.Proofs.Editing.Draining
import SourceMigration.Proofs.Editing.Instantiated
import SourceMigration.Proofs.Recipe.Reached

/-!
# SourceMigration — every run is accounted for

A run ends in one of three ways, and which one it is can be told from the text beforehand: it fails
if the text cannot be parsed, or if a class is to be moved and the template has no instance. However
it ends, its trace is whole, and the passes that were run are the passes that were scheduled.

What the visit leaves in the workshop is judged by what it keeps, whether it succeeds or stops: the
trace grows by balanced parts, and it tells of just the passes that wait.

## Results

* `keeps_run`     — a visit keeps what the edit of a class keeps.
* `stops_run`     — a visit of a class that is to be moved stops if the template has no instance.
* `traced_run`    — the trace of a recipe is balanced, and its passes are run as scheduled.
* `run_accounted` — how a run ends, and what its trace tells.
-/

namespace SourceMigration

-- ---------------------------------------------------------------------------
-- What edits keep
-- ---------------------------------------------------------------------------

/-- Whether an edit succeeds or stops, the workshop that it leaves is as `I` says if the one before
it was. -/
def Keeps {α : Type} (I : Workshop → Prop) (x : EditM α) : Prop := ∀ w, I w → I (x.run.run w).2

namespace Keeps

variable {α β : Type} {I : Workshop → Prop} {x : EditM α} {f : α → EditM β}

theorem pure (a : α) : Keeps I (Pure.pure a) := fun _ h => h

theorem throw (why : EditFault) : Keeps I (MonadExcept.throw why : EditM α) := fun _ h => h

theorem of_modify {g : Workshop → Workshop} (h : ∀ w, I w → I (g w)) :
    Keeps I (modify g : EditM PUnit) := h

theorem bind (hx : Keeps I x) (hf : ∀ a, Keeps I (f a)) : Keeps I (x >>= f) := by
  intro w h
  have hFirst := hx w h
  rw [ExceptT.run_bind, StateT.run_bind]
  rcases hRun : x.run.run w with ⟨why | a, w'⟩
  · rw [hRun] at hFirst
    exact hFirst
  · rw [hRun] at hFirst
    exact hf a w' hFirst

/-- An edit that first looks at the workshop. -/
theorem of_get {f : Workshop → EditM β} (h : ∀ w, I w → I ((f w).run.run w).2) :
    Keeps I (MonadState.get >>= f) := h

/-- Lifted into a part of a visit. -/
theorem lift (h : Keeps I x) : Keeps I (liftM x : ExceptT RevisionFault EditM α).run :=
  bind h fun _ => pure _

/-- Parts of a visit one after the other. -/
theorem bindParts {x : ExceptT RevisionFault EditM α} {f : α → ExceptT RevisionFault EditM β}
    (hx : Keeps I x.run) (hf : ∀ a, Keeps I (f a).run) : Keeps I (x >>= f).run := by
  rw [ExceptT.run_bind]
  refine bind hx fun o => ?_
  cases o with
  | ok a => exact hf a
  | error why => exact pure _

end Keeps

namespace Revision

variable {I : Workshop → Prop} {f : Node → EditM Replacement} (hf : ∀ n, Keeps I (f n))

include hf

theorem keeps_leave (parent : Option Node) (n updated : Node) (changed : Bool) :
    Keeps I ((ofTypes f).leave parent n updated changed) := by
  unfold ofTypes
  simp only
  split
  · exact hf _
  · exact .pure _

omit hf in
theorem keeps_runChildren (k : NodeKind) (parent : Node) {cs : List (Field × Node)}
    (h : ∀ c ∈ cs, ∀ parent, Keeps I ((ofTypes f).run parent c.2).run) :
    Keeps I ((ofTypes f).runChildren k parent cs).run := by
  induction cs with
  | nil =>
    unfold runChildren
    exact .pure _
  | cons c cs ih =>
    obtain ⟨g, n⟩ := c
    have hRest := ih fun d hd => h d (List.mem_cons_of_mem _ hd)
    unfold runChildren
    refine .bindParts (h _ List.mem_cons_self _) fun o => ?_
    have hFront (front : List (Field × Node) × Bool) :=
      Keeps.bindParts hRest fun rest => .pure (.ok (front.1 ++ rest.1, front.2 || rest.2))
    cases o with
    | spread ns =>
      simp only
      split
      · exact .bindParts (.pure _) hFront
      · exact .bindParts (.pure _) hFront
    | _ => exact .bindParts (.pure _) hFront

/-- A visit keeps what the edit of a type declaration keeps. -/
theorem keeps_run (n : Node) (parent : Option Node) : Keeps I ((ofTypes f).run parent n).run := by
  induction n using Node.induct generalizing parent with
  | token t =>
    unfold run
    exact .bindParts (.lift (.pure _)) fun _ =>
      .bindParts (.lift (keeps_leave hf _ _ _ _)) fun _ => .pure _
  | branch k cs ih =>
    unfold run
    have hLeave (out : List (Field × Node) × Bool) :=
      Keeps.bindParts (.lift (keeps_leave hf parent (.branch k cs) (.branch k out.1) out.2))
        fun o => .pure (.ok (Outcome.ofReplacement (.branch k out.1) out.2 o))
    refine .bindParts (.lift (.pure _)) fun descend => ?_
    simp only
    split
    · exact .bindParts (keeps_runChildren k _ fun c hc parent => ih c hc parent) hLeave
    · exact .bindParts (.pure _) hLeave

theorem keeps_apply (root : Node) : Keeps I ((ofTypes f).apply root).run := by
  unfold apply
  refine .bindParts (keeps_run hf root none) fun o => ?_
  cases o <;> exact .pure _

end Revision

-- ---------------------------------------------------------------------------
-- Edits that stop
-- ---------------------------------------------------------------------------

/-- An edit that stops. -/
def Stops {α : Type} (x : EditM α) (w : Workshop) (why : EditFault) : Prop :=
  ∃ w', x.run.run w = (.error why, w')

namespace Stops

variable {α β : Type} {x : EditM α} {f : α → EditM β} {w w' : Workshop} {why : EditFault}

theorem throw (w : Workshop) (why : EditFault) :
    Stops (MonadExcept.throw why : EditM α) w why := ⟨w, rfl⟩

theorem first (h : Stops x w why) : Stops (x >>= f) w why := by
  obtain ⟨w', h⟩ := h
  refine ⟨w', ?_⟩
  rw [ExceptT.run_bind, StateT.run_bind, h]
  rfl

theorem after {a : α} (hx : Gives x w a w') (h : Stops (f a) w' why) : Stops (x >>= f) w why := by
  obtain ⟨w'', h⟩ := h
  refine ⟨w'', ?_⟩
  unfold Gives at hx
  rw [ExceptT.run_bind, StateT.run_bind, hx]
  exact h

section Parts

variable {x : ExceptT RevisionFault EditM α} {f : α → ExceptT RevisionFault EditM β}

theorem lift {x : EditM α} (h : Stops x w why) :
    Stops (liftM x : ExceptT RevisionFault EditM α).run w why :=
  first h

theorem firstPart (h : Stops x.run w why) : Stops (x >>= f).run w why := by
  rw [ExceptT.run_bind]
  exact first h

theorem afterPart {a : α} (hx : Yields x w a w') (h : Stops (f a).run w' why) :
    Stops (x >>= f).run w why := by
  rw [ExceptT.run_bind]
  exact after hx h

end Parts

end Stops

-- ---------------------------------------------------------------------------
-- What traces tell of passes
-- ---------------------------------------------------------------------------

/-- The trace `u` has grown from `t` by balanced parts, which tell that these passes were scheduled
and that these were run. -/
structure Tells (t : Trace) (scheduled ran : List Pass) (u : Trace) : Prop where
  grows : t.Grows u
  told_scheduled : u.told .passScheduled =
    t.told .passScheduled ++ scheduled.map fun p => "Scheduled " ++ p.describe
  told_ran : u.told .passExecuted =
    t.told .passExecuted ++ ran.map fun p => "Ran " ++ p.describe

namespace Tells

variable {t u v : Trace} {ps qs ps' qs' : List Pass}

theorem refl (t : Trace) : Tells t [] [] t := ⟨.refl t, by simp, by simp⟩

/-- Other events change nothing of that. -/
theorem record (h : Tells t ps qs u) {kind : EventKind}
    (hKind : kind ∉ [EventKind.phaseStart, .phaseEnd, .passScheduled, .passExecuted])
    (description : String) (details : List (String × Detail)) :
    Tells t ps qs (u.record kind description details) := by
  simp only [List.mem_cons, List.not_mem_nil, or_false, not_or] at hKind
  obtain ⟨hStart, hEnd, hScheduled, hExecuted⟩ := hKind
  refine ⟨h.grows.record ⟨hStart, hEnd⟩ description details, ?_, ?_⟩
  · rw [← h.told_scheduled, Trace.told, Trace.ofKind_record, if_neg hScheduled, List.append_nil]
    rfl
  · rw [← h.told_ran, Trace.told, Trace.ofKind_record, if_neg hExecuted, List.append_nil]
    rfl

theorem warning (h : Tells t ps qs u) (message : String) : Tells t ps qs (u.warning message) :=
  h.record (by decide) _ _

theorem noted (h : Tells t ps qs u) (hNoted : u.Noted v) : Tells t ps qs v := by
  refine ⟨h.grows.trans hNoted.grows, ?_, ?_⟩
  · rw [← h.told_scheduled, Trace.told, hNoted.ofKind (by simp)]
    rfl
  · rw [← h.told_ran, Trace.told, hNoted.ofKind (by simp)]
    rfl

/-- One more pass that is scheduled. -/
theorem scheduled (h : Tells t ps qs u) (p : Pass) :
    Tells t (ps ++ [p]) qs (u.scheduled p.describe) := by
  refine ⟨h.grows.record (by decide) _ _, ?_, ?_⟩
  · rw [List.map_append, ← List.append_assoc, ← h.told_scheduled, Trace.told, Trace.scheduled,
      Trace.ofKind_record, if_pos rfl, List.map_append]
    rfl
  · rw [← h.told_ran, Trace.told, Trace.scheduled, Trace.ofKind_record, if_neg (by decide),
      List.append_nil]
    rfl

/-- Parts one after the other. -/
theorem trans (h : Tells t ps qs u) (h' : Tells u ps' qs' v) :
    Tells t (ps ++ ps') (qs ++ qs') v := by
  refine ⟨h.grows.trans h'.grows, ?_, ?_⟩
  · rw [h'.told_scheduled, h.told_scheduled, List.map_append, List.append_assoc]
  · rw [h'.told_ran, h.told_ran, List.map_append, List.append_assoc]

/-- Parts in a phase of their own. -/
theorem within {name detail : String} (h : Tells (t.start name detail) ps qs u) :
    Tells t ps qs u.finish := by
  have hTold (kind : EventKind) (hStart : .phaseStart ≠ kind) (hFinish : .phaseEnd ≠ kind) :
      (t.start name detail).told kind = t.told kind ∧ u.finish.told kind = u.told kind := by
    simp only [Trace.told, t.ofKind_start hStart, u.ofKind_finish hFinish, and_self]
  have hScheduled := hTold .passScheduled (by decide) (by decide)
  have hRan := hTold .passExecuted (by decide) (by decide)
  refine ⟨.phase (.refl t) name detail h.grows, ?_, ?_⟩
  · rw [hScheduled.2, h.told_scheduled, hScheduled.1]
  · rw [hRan.2, h.told_ran, hRan.1]

/-- A trace that began with a phase and ends with it. -/
theorem whole {name detail : String} (h : Tells (Trace.start {} name detail) ps qs u) :
    Trace.IsWhole u.finish.events name ∧
      u.finish.told .passScheduled = ps.map (fun p => "Scheduled " ++ p.describe) ∧
      u.finish.told .passExecuted = qs.map (fun p => "Ran " ++ p.describe) :=
  ⟨Trace.isWhole_finish h.grows, h.within.told_scheduled, h.within.told_ran⟩

/-- Passes that are run are told of, each once and in order. -/
theorem runAll (ps : List Pass) (unit : Revised) (j : Journal) :
    Tells j.trace [] ps (Queue.runAll ps unit j).2.trace := by
  have hNames (unit : Node) : (Pass.reports ps unit).map Prod.fst =
      ps.map fun p => "Ran " ++ p.describe := by
    induction ps generalizing unit with
    | nil => rfl
    | cons p ps ih =>
      rw [List.map_cons, ← ih (Pass.step unit p)]
      simp [Pass.reports, List.scanl_cons]
  have hTold (t : Trace) : t.told .passExecuted =
      ((t.ofKind .passExecuted).map fun e => (e.description, e.details)).map Prod.fst := by
    rw [List.map_map]
    rfl
  refine ⟨Queue.grows_runAll ps unit j, ?_, ?_⟩
  · rw [Trace.told, Queue.scheduled_runAll, List.map_nil, List.append_nil]
    rfl
  · rw [hTold, Queue.executed_runAll, List.map_append, ← hTold, hNames]

end Tells

/-- What stops a run: what is found wrong in the text or in the template. -/
def MigrationFault.IsReported : MigrationFault → Prop
  | .parse why => why.IsReported
  | .edit (.template why) => why.IsReported
  | .edit (.queue _) | .file _ => False

namespace Recipe

variable {r : Recipe}

-- ---------------------------------------------------------------------------
-- The trace of a visit
-- ---------------------------------------------------------------------------

/-- The workshop of a visit that began with the trace `t`: the trace tells of the passes that wait,
and none of them waits if the template has no instance. -/
structure Orderly [TreeSitter] (r : Recipe) (t : Trace) (w : Workshop) : Prop where
  isOpen : w.queue.drained = false
  tells : Tells t w.queue.passes [] w.journal.trace
  idle : w.queue.passes ≠ [] →
    ∃ tree, Template.instantiate r.change.template r.change.types = .ok tree

section Visit

variable [TreeSitter] {t : Trace}

theorem keeps_schedule
    (hTemplate : ∃ tree, Template.instantiate r.change.template r.change.types = .ok tree)
    (ps : List Pass) : Keeps (r.Orderly t) (SupertypeChange.schedule ps) := by
  induction ps with
  | nil => exact .pure _
  | cons p ps ih =>
    unfold SupertypeChange.schedule
    refine .of_get fun w h => ?_
    obtain ⟨⟨passes, drained⟩, journal⟩ := w
    obtain rfl : drained = false := h.isOpen
    by_cases hWaits : passes.contains p = true
    · simp only [Queue.schedule, Bool.false_eq_true, if_false, if_pos hWaits]
      exact ih _ h
    · simp only [Queue.schedule, Bool.false_eq_true, if_false, if_neg hWaits, if_true]
      exact ih _ ⟨rfl, h.tells.scheduled p, fun _ => hTemplate⟩

theorem keeps_change (decl clause : Node) : Keeps (r.Orderly t) (r.change.apply decl clause) := by
  unfold SupertypeChange.apply
  simp only
  split
  · exact .throw _
  · rename_i tree hTemplate
    refine .bind (keeps_schedule ⟨tree, hTemplate⟩ _) fun _ =>
      .bind (.of_modify fun w h => ?_) fun _ => .pure _
    exact { h with tells := h.tells.noted (.mutation _ _ _ _) }

theorem keeps_settleBody (decl : Node) : Keeps (r.Orderly t) (r.settleBody decl) := by
  unfold settleBody
  cases decl.field? .body with
  | none => exact .pure _
  | some body =>
    refine .of_get fun w h => ?_
    exact { h with tells := h.tells.noted (r.table.noted_apply body w.journal.trace) }

theorem keeps_editClass (decl : Node) : Keeps (r.Orderly t) (r.editClass decl) := by
  rw [editClass_eq]
  split
  · exact .pure _
  · refine .bind ?_ r.keeps_settleBody
    split
    · exact keeps_change _ _
    · exact .pure _

/-- However a visit ends, its trace is in order. -/
theorem orderly_visitUnit (r : Recipe) (unit : Node) (j : Journal) :
    r.Orderly j.trace ((r.visitUnit unit).run.run { journal := j }).2 := by
  have hKeeps : Keeps (r.Orderly j.trace) (r.visitUnit unit) := by
    unfold visitUnit
    refine .bind (Revision.keeps_apply keeps_editClass unit) fun o => ?_
    cases o <;> exact .pure _
  exact hKeeps _ ⟨rfl, .refl _, fun hWait => absurd rfl hWait⟩

end Visit

-- ---------------------------------------------------------------------------
-- Visits that stop
-- ---------------------------------------------------------------------------

section Template

variable [TreeSitter] {why : TemplateFault} {w : Workshop}
  (hTemplate : Template.instantiate r.change.template r.change.types = .error why)

include hTemplate

/-- The edit of a class that is to be moved stops. -/
theorem stops_editClass {decl : Node} (hLegacy : Supertype.denoted? decl = some r.legacy) :
    Stops (r.editClass decl) w (.template why) := by
  obtain ⟨clause, hClause⟩ : ∃ clause, Supertype.clause? decl = some clause := by
    cases hClause : Supertype.clause? decl with
    | some clause => exact ⟨clause, rfl⟩
    | none => simp [Supertype.denoted?, hClause] at hLegacy
  rw [editClass_eq, hLegacy, Option.isNone_some, if_neg (by simp), Supertype.match?, if_pos hLegacy,
    hClause]
  refine .first ?_
  unfold SupertypeChange.apply
  rw [hTemplate]
  exact .throw _ _

omit hTemplate in
/-- Where no class is to be moved, the template does not matter. -/
theorem fits_of_unmoved {n : Node} (h : n.WellFormed)
    (hUnmoved : ¬ n.walk.any (Supertype.isOf r.legacy) = true) (tree : Node) : (r.visitPlan tree).Fits n :=
  fits_visitPlan h fun hMoved => absurd hMoved hUnmoved

omit hTemplate in
/-- The first child with a class that is to be moved stops the visit of all. -/
theorem stops_runChildren (k : NodeKind) (parent : Node) {cs : List (Field × Node)}
    (hFine : ∀ c ∈ cs, c.2.WellFormed)
    (h : ∀ c ∈ cs, c.2.walk.any (Supertype.isOf r.legacy) = true →
      ∀ (parent : Option Node) {w : Workshop}, r.Ready w →
        Stops ((Revision.ofTypes r.editClass).run parent c.2).run w (.template why))
    (hMoved : cs.any (fun c => c.2.walk.any (Supertype.isOf r.legacy)) = true)
    (hReady : r.Ready w) :
    Stops ((Revision.ofTypes r.editClass).runChildren k parent cs).run w (.template why) := by
  induction cs generalizing w with
  | nil => cases hMoved
  | cons c cs ih =>
    obtain ⟨f, n⟩ := c
    obtain ⟨hHere, hThere⟩ := List.forall_mem_cons.mp h
    obtain ⟨hFirst, hRest⟩ := List.forall_mem_cons.mp hFine
    unfold Revision.runChildren
    by_cases hNow : n.walk.any (Supertype.isOf r.legacy) = true
    · exact .firstPart (hHere hNow _ hReady)
    · have hLater : cs.any (fun c => c.2.walk.any (Supertype.isOf r.legacy)) = true := by
        simpa [hNow] using hMoved
      obtain ⟨w₁, hRun, hQueues⟩ := Plan.visits (fits_of_unmoved hFirst hNow default) (some parent) hReady
      have hStops := ih hRest hThere hLater (Queues.ready hQueues hReady)
      refine .afterPart hRun ?_
      by_cases hKnown : n.walk.any (r.visitPlan default).edits = true
      · simp only [hKnown, if_true]
        exact .afterPart (.pure _ _) (.firstPart hStops)
      · simp only [hKnown]
        exact .afterPart (.pure _ _) (.firstPart hStops)

/-- The visit of a node with a class that is to be moved stops. -/
theorem stops_run {n : Node} (h : n.WellFormed)
    (hMoved : n.walk.any (Supertype.isOf r.legacy) = true) (parent : Option Node)
    (hReady : r.Ready w) :
    Stops ((Revision.ofTypes r.editClass).run parent n).run w (.template why) := by
  induction h generalizing parent w with
  | token t => cases hMoved
  | @branch k cs hFills hChildren ih =>
    rw [Node.walk, List.any_cons, Node.walkOf_eq, List.any_flatMap, Bool.or_eq_true] at hMoved
    unfold Revision.run
    refine .afterPart (.lift (.pure true w)) ?_
    by_cases hBelow : cs.any (fun c => c.2.walk.any (Supertype.isOf r.legacy)) = true
    · exact .firstPart (stops_runChildren k _ hChildren (fun c hc hMoved parent _ hReady =>
        ih c hc hMoved parent hReady) hBelow hReady)
    · -- the children are done, and the class itself is to be moved
      have hFits : ∀ c ∈ cs, (r.visitPlan default).Fits c.2 := fun c hc =>
        fits_of_unmoved (hChildren c hc) (fun hMoved =>
          hBelow (List.any_eq_true.mpr ⟨c, hc, hMoved⟩)) default
      obtain ⟨w₁, hRun, -⟩ := Plan.yields_runChildren k (.branch k cs) hFits
        (fun c hc => Plan.visits (hFits c hc)) hReady
      have hSelf := hMoved.resolve_right hBelow
      refine .afterPart hRun (.firstPart (.lift ?_))
      cases k with
      | typeDeclaration =>
        have hSame : Supertype.denoted? (.branch .typeDeclaration (r.visitedIn default cs)) = _ :=
          denoted_visitedIn (.branch hFills hChildren)
        refine stops_editClass hTemplate ?_
        rw [below_visitPlan, hSame]
        simpa [Supertype.isOf] using hSelf
      | _ => cases hSelf

/-- The visit of a unit with a class that is to be moved stops. -/
theorem stops_visitUnit {unit : Node} (h : unit.WellFormed)
    (hMoved : unit.walk.any (Supertype.isOf r.legacy) = true) (hReady : r.Ready w) :
    Stops (r.visitUnit unit) w (.template why) := by
  unfold visitUnit Revision.apply
  exact .first (.firstPart (stops_run hTemplate h hMoved none hReady))

end Template

-- ---------------------------------------------------------------------------
-- Runs of a recipe
-- ---------------------------------------------------------------------------

/-- Why a recipe fails on a unit: a class is to be moved, and the template has no instance. -/
def stop? [TreeSitter] (r : Recipe) (unit : Node) : Option EditFault :=
  if Gate.applies r.gate unit && unit.walk.any (Supertype.isOf r.legacy) then
    match Template.instantiate r.change.template r.change.types with
    | .error why => some (.template why)
    | .ok _ => none
  else none

/-- A recipe fails with what is reported of its template. -/
theorem reported_of_stop [TreeSitter] [LawfulTreeSitter] {unit : Node} {why : EditFault}
    (h : r.stop? unit = some why) : (MigrationFault.edit why).IsReported := by
  unfold stop? at h
  split at h
  · split at h
    · rename_i hTemplate
      cases h
      exact Template.reported_of_instantiate hTemplate
    · cases h
  · cases h

/-- A visit stops just if a class is to be moved and the template has no instance. Otherwise the
companions wait, each once, or nothing does. -/
theorem visit_accounted [TreeSitter] (r : Recipe) {unit : Node} (h : unit.WellFormed)
    (hGate : Gate.applies r.gate unit = true) (j : Journal) :
    ∃ w : Workshop, r.Orderly j.trace w ∧
      match r.stop? unit with
      | some why => (r.visitUnit unit).run { journal := j } = (.error why, w)
      | none => (∃ out, (r.visitUnit unit).run { journal := j } = (.ok out, w)) ∧
          w.queue.passes.Nodup ∧ w.queue.passes ⊆ r.change.companions := by
  have hOrderly := r.orderly_visitUnit unit j
  have hReady : r.Ready { journal := j } := ⟨rfl, Or.inl rfl⟩
  have hGives (tree : Node) (hTemplate : unit.walk.any (Supertype.isOf r.legacy) = true →
      Template.instantiate r.change.template r.change.types = .ok tree) :
      ∃ w : Workshop, r.Orderly j.trace w ∧
        (∃ out, (r.visitUnit unit).run { journal := j } = (.ok out, w)) ∧
          w.queue.passes.Nodup ∧ w.queue.passes ⊆ r.change.companions := by
    obtain ⟨w, hRun, hQueues⟩ := gives_visitUnit_of_moved h hTemplate hReady
    rw [hRun] at hOrderly
    refine ⟨w, hOrderly, ⟨_, hRun⟩, ?_⟩
    rcases (hQueues.ready hReady).2 with hNone | hAll
    · simp [hNone]
    · rw [hAll]
      exact ⟨nodup_eraseDups _, fun p hp => List.mem_eraseDups.mp hp⟩
  unfold stop?
  rw [hGate, Bool.true_and]
  by_cases hMoved : unit.walk.any (Supertype.isOf r.legacy) = true
  · rw [if_pos hMoved]
    cases hTemplate : Template.instantiate r.change.template r.change.types with
    | ok tree => exact hGives tree fun _ => hTemplate
    | error why =>
      obtain ⟨w, hRun⟩ := stops_visitUnit hTemplate h hMoved hReady
      rw [hRun] at hOrderly
      exact ⟨w, hOrderly, hRun⟩
  · rw [if_neg hMoved]
    exact hGives default fun h => absurd h hMoved

/-- However a recipe ends, the passes that were scheduled were run, each once and in order. It fails
just if a class is to be moved and the template has no instance, and then no pass was scheduled. -/
theorem traced_run [TreeSitter] (r : Recipe) {unit : Node} (h : unit.WellFormed) (j : Journal) :
    ∃ ps : List Pass, ps.Nodup ∧ ps ⊆ r.change.companions ∧
      Tells j.trace ps ps (r.run unit j).2.trace ∧
      match r.stop? unit with
      | some why => (r.run unit j).1 = .error why ∧ ps = []
      | none => ∃ out, (r.run unit j).1 = .ok out := by
  by_cases hGate : Gate.applies r.gate unit = true
  · obtain ⟨w, hOrderly, hVisit⟩ :=
      r.visit_accounted h hGate (j.log (·.start "Primary Visit" r.name))
    have hVisited := hOrderly.tells.within
    unfold run
    simp only [hGate, Bool.not_true, Bool.false_eq_true, if_false]
    cases hStop : r.stop? unit with
    | some why =>
      simp only [hStop] at hVisit
      -- without an instance of the template, nothing was scheduled
      have hNone : w.queue.passes = [] := by
        by_contra hSome
        obtain ⟨tree, hTree⟩ := hOrderly.idle hSome
        simp [stop?, hTree] at hStop
      rw [hNone] at hVisited
      simp only [hVisit]
      exact ⟨[], .nil, List.nil_subset _, hVisited, trivial, rfl⟩
    | none =>
      simp only [hStop] at hVisit
      obtain ⟨⟨out, hRun⟩, hNodup, hSubset⟩ := hVisit
      refine ⟨w.queue.passes, hNodup, hSubset, ?_⟩
      simp only [hRun, Queue.drain, hOrderly.isOpen, Bool.false_eq_true, if_false]
      have hRan (j₂ : Journal) {name detail : String}
          (hStart : j₂.trace = w.journal.trace.finish.start name detail) :
          Tells j.trace w.queue.passes w.queue.passes
            (Queue.runAll w.queue.passes ⟨out.node, false⟩ j₂).2.trace.finish := by
        have hPhase := Tells.runAll w.queue.passes ⟨out.node, false⟩ j₂
        rw [hStart] at hPhase
        simpa only [List.nil_append, List.append_nil] using hVisited.trans hPhase.within
      exact ⟨hRan _ rfl, _, rfl⟩
  · have hStop : r.stop? unit = none := by simp [stop?, hGate]
    rw [hStop]
    unfold run
    rw [if_pos (by simpa using hGate)]
    exact ⟨[], .nil, List.nil_subset _, (Tells.refl _).record (by decide) _ _, _, rfl⟩

end Recipe

namespace Engine

-- ---------------------------------------------------------------------------
-- Runs on a text
-- ---------------------------------------------------------------------------

/-- Why a run on a text fails: the text cannot be parsed, or the recipe fails on its unit. -/
def stop? [TreeSitter] (e : Engine) (code : String) : Option MigrationFault :=
  match Parsing.parse code with
  | .error why => some (.parse why)
  | .ok unit => (e.recipe.stop? (Attribution.ofUnit e.classpath unit).value).map .edit

/-- A text that can be parsed does not stop an engine whose template has an instance. -/
theorem stop?_eq_none [TreeSitter] {e : Engine} {code : String} {unit fragment : Node}
    (hParse : Parsing.parse code = .ok unit)
    (hTemplate : Template.instantiate e.recipe.change.template e.recipe.change.types = .ok fragment) :
    e.stop? code = none := by
  simp only [Engine.stop?, hParse, Recipe.stop?, hTemplate, ite_self, Option.map_none]

/-- **How a run ends, and what its trace tells.** If errors are found in the text, or the template of the
recipe has no instance, the run fails with that one error; otherwise there is none, and the text is as it
was or edited into another. In every case the trace is whole: one outermost phase, in which every event
belongs to a phase that is open at that moment and every phase is closed once. The passes that were run are
those that were scheduled, each once and in the same order; a run that failed has none. -/
theorem run_accounted [TreeSitter] [LawfulTreeSitter] (e : Engine) (code : String) (path : Option String) :
    let result := e.run code path
    (match e.stop? code with
      | some why => why.IsReported ∧ result.status = .failed ∧ result.code = code ∧ result.faults = [why]
      | none => result.faults = [] ∧
          (result.status = .unchanged ∧ result.code = code ∨
            result.status = .edited ∧ result.code ≠ code)) ∧
      Trace.IsWhole result.trace.events "Migration Pipeline" ∧
      ∃ ps : List Pass, ps.Nodup ∧ ps ⊆ e.recipe.change.companions ∧
        result.trace.told .passScheduled = ps.map (fun p => "Scheduled " ++ p.describe) ∧
        result.trace.told .passExecuted = ps.map (fun p => "Ran " ++ p.describe) ∧
        (result.status = .failed → ps = []) := by
  have hParsing (t : Trace) : Tells t [] [] (t.start "Parsing" "Source -> CST").finish :=
    (Tells.refl _).within
  unfold stop? run
  cases hParse : Parsing.parse code with
  | error why =>
    obtain ⟨hWhole, hScheduled, hRan⟩ :=
      ((hParsing _).warning (MigrationFault.parse why).message).whole
    exact ⟨⟨(Parsing.reported_of_parse hParse).2, rfl, rfl, rfl⟩, hWhole, [], .nil,
      List.nil_subset _, hScheduled,
      hRan, fun _ => rfl⟩
  | ok unit =>
    have hFine : (Attribution.ofUnit e.classpath unit).value.WellFormed :=
      Attribution.wellFormed_ofUnit e.classpath (Parsing.fresh_of_parse hParse).wellFormed
    simp only
    generalize hBefore : Journal.log (Journal.remark _ _) Trace.finish = j
    have hAttributed : Tells (Trace.start {} "Migration Pipeline" e.recipe.name) [] [] j.trace := by
      subst hBefore
      exact (hParsing _).trans (Tells.refl (Trace.start _ "Type Attribution" _)).within
    obtain ⟨ps, hNodup, hSubset, hDriven, hOutcome⟩ := e.recipe.traced_run hFine j
    replace hDriven := hAttributed.trans hDriven
    generalize e.recipe.run _ j = out at hDriven hOutcome ⊢
    obtain ⟨outcome, j'⟩ := out
    cases hStop : e.recipe.stop? (Attribution.ofUnit e.classpath unit).value with
    | some why =>
      rw [hStop] at hOutcome
      obtain ⟨rfl, rfl⟩ := hOutcome
      obtain ⟨hWhole, hScheduled, hRan⟩ :=
        (hDriven.warning (MigrationFault.edit why).message).whole
      exact ⟨⟨Recipe.reported_of_stop hStop, rfl, rfl, rfl⟩, hWhole, [], .nil, hSubset, hScheduled, hRan,
        fun _ => rfl⟩
    | none =>
      rw [hStop] at hOutcome
      obtain ⟨migrated, rfl⟩ := hOutcome
      simp only [Option.map_none]
      by_cases hChanged : migrated.changed = true
      · have hPrinted := hDriven.trans (Tells.refl (Trace.start _ "Printing" "CST -> Source")).within
        rw [List.append_nil] at hPrinted
        obtain ⟨hWhole, hScheduled, hRan⟩ := hPrinted.whole
        simp only [hChanged, Bool.not_true, Bool.false_eq_true, if_false]
        refine ⟨⟨trivial, ?_⟩, hWhole, ps, hNodup, hSubset, hScheduled, hRan, ?_⟩
        · by_cases hSame : migrated.node.text = code
          · exact Or.inl ⟨if_pos hSame, hSame⟩
          · exact Or.inr ⟨if_neg hSame, hSame⟩
        · split <;> exact fun h => nomatch h
      · obtain ⟨hWhole, hScheduled, hRan⟩ := hDriven.whole
        simp only [hChanged, Bool.not_false, if_true]
        exact ⟨⟨trivial, Or.inl ⟨trivial, trivial⟩⟩, hWhole, ps, hNodup, hSubset, hScheduled, hRan,
          fun h => nomatch h⟩

open Sample in
theorem run_accounted_remarked : letI := library [remarked, holder]
    ∃ result, (⟨Appender.recipe, ⟨defaultStubs⟩⟩ : Engine).run remarked.text = result ∧ result.faults = [] ∧
      (result.status = .unchanged ∧ result.code = remarked.text ∨
        result.status = .edited ∧ result.code ≠ remarked.text) ∧
      Trace.IsWhole result.trace.events "Migration Pipeline" ∧
      ∃ ps : List Pass, ps.Nodup ∧ ps ⊆ Appender.companions ∧
        result.trace.told .passScheduled = ps.map (fun p => "Scheduled " ++ p.describe) ∧
        result.trace.told .passExecuted = ps.map (fun p => "Ran " ++ p.describe) := by
  have hLawful := lawful_holder isSound_remarked
  have hReads := readsTemplate_holder remarked_ne_holder
  obtain ⟨unit, hParse⟩ :=
    @Parsing.exists_parse (library [remarked, holder]) hLawful _ (noError_of_isSound isSound_remarked)
  have hTemplate := @Appender.instantiate_template (library [remarked, holder]) hReads
  have hNone := @stop?_eq_none (library [remarked, holder])
    ⟨Appender.recipe, ⟨defaultStubs⟩⟩ _ _ _ hParse hTemplate
  -- nothing is to be computed from here on
  clear hParse hReads hTemplate
  generalize remarked.text = text at hNone ⊢
  generalize library [remarked, holder] = known at hLawful hNone ⊢
  obtain ⟨hEnd, hWhole, ps, hNodup, hSubset, hScheduled, hExecuted, -⟩ :=
    @run_accounted known hLawful ⟨Appender.recipe, ⟨defaultStubs⟩⟩ text none
  simp only [hNone] at hEnd
  exact ⟨_, rfl, hEnd.1, hEnd.2, hWhole, ps, hNodup, hSubset, hScheduled, hExecuted⟩

end Engine

end SourceMigration
