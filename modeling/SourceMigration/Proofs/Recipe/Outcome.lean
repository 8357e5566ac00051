import SourceMigration.Proofs.Editing.Passes
import SourceMigration.Proofs.Recipe.Visit

/-!
# SourceMigration — what comes of a run

A recipe whose template can be instantiated never fails on an attributed unit. If the gate holds,
the visit settles the types of the unit, and if a class was moved, the passes go over them; the
package and the marker of the end are never touched.

## Results

* `visited_toUnit` — the visit of a unit is that of its types.
* `run_of_gate`    — what comes of a run on a unit that mentions the type of the gate.
-/

namespace SourceMigration

-- ---------------------------------------------------------------------------
-- Where no class is
-- ---------------------------------------------------------------------------

/-- Only a class extends anything. -/
theorem isKnown_of_form {n : Node} (h : n.form ≠ .typeDeclaration) :
    Supertype.isKnown n = false := by
  cases n with
  | token t => rfl
  | branch k cs => cases k <;> first | rfl | exact absurd rfl h

/-- A class of which nothing is known yet extends nothing known. -/
theorem Node.Bare.isKnown {n : Node} (h : n.Bare) : Supertype.isKnown n = false := by
  have hDenoted {m : Node} (hm : m.Bare) : m.denoted? = none := by
    cases hm with
    | token t => rfl
    | @branch k cs hKind hChildren =>
      cases k with
      | name t =>
        cases t with
        | none => rfl
        | some _ => cases hKind
      | parameterized =>
        simp only [Node.denoted?]
        split
        · rename_i t ds hBase
          have hChild := hChildren _ (mem_of_mem_filed (List.mem_of_head? hBase))
          cases hChild with
          | branch hKind _ => simpa [NodeKind.isBare] using hKind
        · rfl
      | _ => rfl
  have hField {m c : Node} {f : Field} (hm : m.Bare) (hc : m.field? f = some c) : c.Bare := by
    cases hm with
    | token t => cases hc
    | branch _ hChildren => exact hChildren _ (mem_of_mem_filed (List.mem_of_head? hc))
  by_cases hClass : n.form = .typeDeclaration
  · obtain ⟨cs, rfl⟩ := Node.exists_children (k := .typeDeclaration) rfl hClass
    simp only [Supertype.isKnown, Supertype.denoted?, Supertype.clause?]
    cases hClause : (Node.branch .typeDeclaration cs).field? .superclass with
    | none => rfl
    | some clause =>
      cases hSupertype : clause.field? .supertype with
      | none => simp [hSupertype]
      | some supertype =>
        simp [hSupertype, hDenoted (hField (hField h hClause) hSupertype)]
  · exact isKnown_of_form hClass

namespace UnitParts

variable {p : UnitParts}

/-- The parts that stand around the types, in which no class has a known supertype. -/
theorem Sound.unknown (hp : p.Sound) {n : Node}
    (hn : n ∈ p.package ∨ n ∈ p.imports ∨ n ∈ p.endMarker) :
    n.walk.any Supertype.isKnown = false := by
  rw [List.any_eq_false]
  intro m hm
  rcases hn with hn | hn | hn
  · simp [((hp.package n hn).2.2.walk m hm).isKnown]
  · have hForm := hp.form_walk_import hn m hm
    simp [isKnown_of_form (n := m) (by rintro hType; simp [hType] at hForm)]
  · obtain ⟨t, rfl⟩ := Node.exists_token_of_form (hp.endMarker n hn)
    rw [Node.walk, List.mem_singleton] at hm
    simp [hm, Supertype.isKnown]

theorem Sound.wellFormed_of_mem (hp : p.Sound) {n : Node}
    (hn : n ∈ p.package ∨ n ∈ p.imports ∨ n ∈ p.endMarker) : n.WellFormed := by
  rcases hn with hn | hn | hn
  · exact (hp.package n hn).2.1
  · exact (hp.imports n hn).2
  · obtain ⟨t, rfl⟩ := Node.exists_token_of_form (hp.endMarker n hn)
    exact .token t

/-- The visit of a unit is the visit of its types. -/
theorem Sound.visited_toUnit (hp : p.Sound) (r : Recipe) (tree : Node) :
    r.visited tree p.toUnit = (p.mapTypes (r.visited tree)).toUnit := by
  have hSame {f : Field} {ns : List Node}
      (h : ∀ n ∈ ns, n ∈ p.package ∨ n ∈ p.imports ∨ n ∈ p.endMarker) :
      (ns.map fun n => (f, n)).map (fun c => (c.1, r.visited tree c.2)) =
        ns.map fun n => (f, n) := by
    rw [List.map_map]
    refine List.map_congr_left fun n hn => ?_
    simp [Recipe.visited_of_unreached (hp.wellFormed_of_mem (h n hn)) (hp.unknown (h n hn))]
  have hTypes : (p.types.map fun n => (Field.types, n)).map (fun c => (c.1, r.visited tree c.2)) =
      (p.types.map (r.visited tree)).map fun n => (Field.types, n) := by
    rw [List.map_map, List.map_map]
    rfl
  have hPackage : ∀ n ∈ p.package.toList, n ∈ p.package ∨ n ∈ p.imports ∨ n ∈ p.endMarker :=
    fun n hn => Or.inl (Option.mem_toList.mp hn)
  unfold toUnit
  rw [r.visited_branch tree (k := .unit) (by simp)]
  simp only [List.map_append, hTypes, hSame hPackage, hSame fun n hn => Or.inr (Or.inl hn),
    hSame fun n hn => Or.inr (Or.inr hn), UnitParts.mapTypes]

/-- After the visit, the parts are as sound as before. -/
theorem Sound.visited (hp : p.Sound) (r : Recipe) {tree : Node}
    (hTree : tree.form ∈ [Form.name, .parameterized] ∧ tree.WellFormed) :
    (p.mapTypes (r.visited tree)).Sound where
  package := hp.package
  imports := hp.imports
  types n hn := by
    obtain ⟨m, hm, rfl⟩ := List.mem_map.mp hn
    exact ⟨by rw [(r.descends_visited tree).form]; exact (hp.types m hm).1,
      r.wellFormed_visited tree hTree (hp.types m hm).2⟩
  endMarker := hp.endMarker

end UnitParts

-- ---------------------------------------------------------------------------
-- Runs
-- ---------------------------------------------------------------------------

/-- A list without duplicates is as it is when they are dropped. -/
theorem eraseDups_of_nodup {α : Type} [BEq α] [LawfulBEq α] {as : List α} (h : as.Nodup) :
    as.eraseDups = as := by
  induction as with
  | nil => simp
  | cons a as ih =>
    obtain ⟨hNew, hRest⟩ := List.nodup_cons.mp h
    have hSame : as.filter (!· == a) = as := by
      refine List.filter_eq_self.mpr fun b hb => ?_
      simpa using fun hEq : b = a => hNew (hEq ▸ hb)
    rw [List.eraseDups_cons, hSame, ih hRest]

namespace Recipe

variable {r : Recipe}

/-- A unit that does not mention the type of the gate is left alone. -/
theorem run_of_not_gate [TreeSitter] {unit : Node} (hGate : Gate.applies r.gate unit = false) (j : Journal) :
    (r.run unit j).1 = .ok ⟨unit, false⟩ := by
  unfold run
  rw [hGate]
  rfl

/-- A run on a unit that mentions the type of the gate is the visit of its types, and then the
passes, if a class was moved. -/
theorem run_eq_runAll [TreeSitter] {p : UnitParts} (hp : p.Sound) (hUnit : p.toUnit.WellFormed) {tree : Node}
    (hTemplate : Template.instantiate r.change.template r.change.types = .ok tree)
    (hNodup : r.change.companions.Nodup) (hGate : Gate.applies r.gate p.toUnit = true)
    (j : Journal) :
    ∃ (result : Revised) (j' : Journal),
      (r.run p.toUnit j).1 =
        .ok ⟨result.node, p.toUnit.walk.any Supertype.isKnown || result.changed⟩ ∧
      (Queue.runAll (if p.toUnit.walk.any (Supertype.isOf r.legacy) then r.change.companions else [])
        ⟨(p.mapTypes (r.visited tree)).toUnit, false⟩ j').1 = result := by
  have hReady : r.Ready { journal := j.log (·.start "Primary Visit" r.name) } := ⟨rfl, Or.inl rfl⟩
  obtain ⟨w, hVisit, hQueues⟩ := gives_visitUnit hTemplate hUnit hReady
  rw [hp.visited_toUnit] at hVisit
  have hRun : (r.visitUnit p.toUnit).run { journal := j.log (·.start "Primary Visit" r.name) } =
      (.ok ⟨(p.mapTypes (r.visited tree)).toUnit, p.toUnit.walk.any Supertype.isKnown⟩, w) := hVisit
  have hOpen : w.queue.drained = false := (hQueues.ready hReady).1
  have hPasses : w.queue.passes =
      if p.toUnit.walk.any (Supertype.isOf r.legacy) then r.change.companions else [] := by
    rw [Queues] at hQueues
    split
    · rename_i hMoved
      rw [if_pos hMoved, eraseDups_of_nodup hNodup] at hQueues
      rw [hQueues]
    · rename_i hMoved
      rw [if_neg hMoved] at hQueues
      rw [hQueues]
  rw [← hPasses]
  unfold run
  simp only [hGate, Bool.not_true, Bool.false_eq_true, if_false, hRun, Queue.drain, hOpen]
  exact ⟨_, _, rfl, rfl⟩

/-- What comes of a run on a unit that mentions the type of the gate. -/
theorem run_of_gate [TreeSitter] {p : UnitParts} (hp : p.Sound) (hUnit : p.toUnit.WellFormed) {tree : Node}
    (hTemplate : Template.instantiate r.change.template r.change.types = .ok tree)
    (hTree : tree.form ∈ [Form.name, .parameterized] ∧ tree.WellFormed)
    (hNodup : r.change.companions.Nodup) (hGate : Gate.applies r.gate p.toUnit = true)
    (j : Journal) :
    ∃ (q : UnitParts) (changed : Bool), (r.run p.toUnit j).1 = .ok ⟨q.toUnit, changed⟩ ∧
      (p.toUnit.walk.any Supertype.isKnown = true → changed = true) ∧
      q.Sound ∧
      if p.toUnit.walk.any (Supertype.isOf r.legacy) then
        (p.mapTypes fun n => Pass.onTypes r.change.companions (r.visited tree n)).Reimports q
      else q = p.mapTypes (r.visited tree) := by
  obtain ⟨result, j', hRun, hResult⟩ := run_eq_runAll hp hUnit hTemplate hNodup hGate j
  have hSound := hp.visited r hTree
  rw [hRun]
  split
  · rename_i hMoved
    rw [if_pos hMoved] at hResult
    obtain ⟨q, hq, hqSound, hqFront⟩ :=
      Pass.runAll_toUnit r.change.companions hSound false j'
    rw [hResult] at hq
    refine ⟨q, p.toUnit.walk.any Supertype.isKnown || result.changed, by rw [hq], ?_, hqSound, ?_⟩
    · intro hKnown
      rw [hKnown, Bool.true_or]
    · simpa [UnitParts.mapTypes, Function.comp_def] using hqFront
  · rename_i hMoved
    rw [if_neg hMoved] at hResult
    refine ⟨p.mapTypes (r.visited tree), p.toUnit.walk.any Supertype.isKnown || result.changed,
      by rw [← hResult]; rfl, ?_, hSound, rfl⟩
    intro hKnown
    rw [hKnown, Bool.true_or]

end Recipe

end SourceMigration
