import SourceMigration.Proofs.Tree.Decided

/-!
# SourceMigration — the calls of hooks

What the hooks of a revision see. A revision is recorded by hooks that ask the given ones and note each
call with its answer; that changes nothing in what the revision makes of a tree. The hooks may keep a
state of any kind, so an answer may depend on all that was asked before. Still every run goes by decisions:
filed under the places that they are about, the answers it was given account for all that it does.

A run that fails has made the first part of the calls that its decisions would have led to.

## Results

* `exists_ran`      — every visit goes by decisions.
* `exists_ranWhole` — and so does the revision of a whole tree.
-/

namespace SourceMigration

namespace Revision

-- ---------------------------------------------------------------------------
-- Records
-- ---------------------------------------------------------------------------

/-- A call of the hook before the children of a node. -/
structure Visit where
  parent : Option Node
  node : Node
  /-- The answer: whether the children are visited. -/
  descends : Bool

/-- A call of the hook after the children of a node. -/
structure Leave where
  parent : Option Node
  before : Node
  updated : Node
  changed : Bool
  /-- The answer: what takes the place of the node. -/
  reply : Replacement

/-- A call of a hook. -/
inductive Call where
  | visit (v : Visit)
  | leave (l : Leave)

namespace Call

/-- The call, if it is one before children. -/
def visit? : Call → Option Visit
  | .visit v => some v
  | .leave _ => none

/-- The call, if it is one after children. -/
def leave? : Call → Option Leave
  | .visit _ => none
  | .leave l => some l

end Call

section Recording

variable {σ : Type} {α β : Type}

/-- The revision with hooks that ask the given ones, and note the calls with their answers. -/
def recorded (r : Revision (StateM σ)) : Revision (StateT (List Call) (StateM σ)) where
  visit parent n := do
    let descends ← r.visit parent n
    modify (· ++ [.visit ⟨parent, n, descends⟩])
    pure descends
  leave parent before updated changed := do
    let reply ← r.leave parent before updated changed
    modify (· ++ [.leave ⟨parent, before, updated, changed, reply⟩])
    pure reply

/-- What a revision makes of a tree, with hooks that begin in a state. -/
def applied (r : Revision (StateM σ)) (root : Node) (s : σ) : Except RevisionFault Revised :=
  ((r.apply root).run.run s).1

/-- The calls of hooks while a tree is revised. -/
def calls (r : Revision (StateM σ)) (root : Node) (s : σ) : List Call :=
  (((r.recorded.apply root).run.run []).run s).1.2

/-- The first part of a visit is the second one recorded: from a state, both have the same outcome and
leave the same state, and the first adds the calls to its record. -/
def Leads (x : ExceptT RevisionFault (StateT (List Call) (StateM σ)) α)
    (y : ExceptT RevisionFault (StateM σ) α) (s : σ) (out : Except RevisionFault α)
    (calls : List Call) (s' : σ) : Prop :=
  (∀ log, (x.run.run log).run s = ((out, log ++ calls), s')) ∧ y.run.run s = (out, s')

namespace Leads

variable {x : ExceptT RevisionFault (StateT (List Call) (StateM σ)) α}
  {y : ExceptT RevisionFault (StateM σ) α}
  {f : α → ExceptT RevisionFault (StateT (List Call) (StateM σ)) β}
  {g : α → ExceptT RevisionFault (StateM σ) β}
  {s s' s'' : σ} {a : α} {why : RevisionFault} {out : Except RevisionFault β} {cs cs' : List Call}

theorem pure (a : α) (s : σ) : Leads (Pure.pure a) (Pure.pure a) s (.ok a) [] s :=
  ⟨fun log => by rw [List.append_nil]; rfl, rfl⟩

theorem throw (why : RevisionFault) (s : σ) :
    Leads (MonadExcept.throw why : ExceptT RevisionFault (StateT (List Call) (StateM σ)) α)
      (MonadExcept.throw why) s (.error why) [] s :=
  ⟨fun log => by rw [List.append_nil]; rfl, rfl⟩

theorem bind (h : Leads x y s (.ok a) cs s') (h' : Leads (f a) (g a) s' out cs' s'') :
    Leads (x >>= f) (y >>= g) s out (cs ++ cs') s'' := by
  refine ⟨fun log => ?_, ?_⟩
  · rw [ExceptT.run_bind, StateT.run_bind, StateT.run_bind, h.1, ← List.append_assoc]
    exact h'.1 _
  · rw [ExceptT.run_bind, StateT.run_bind, h.2]
    exact h'.2

/-- A failure ends the visit. -/
theorem stop (h : Leads x y s (.error why) cs s') :
    Leads (x >>= f) (y >>= g) s (.error why) cs s' := by
  refine ⟨fun log => ?_, ?_⟩
  · rw [ExceptT.run_bind, StateT.run_bind, StateT.run_bind, h.1]
    rfl
  · rw [ExceptT.run_bind, StateT.run_bind, h.2]
    rfl

theorem visit (r : Revision (StateM σ)) (parent : Option Node) (n : Node) (s : σ) :
    Leads (liftM (r.recorded.visit parent n)) (liftM (r.visit parent n)) s
      (.ok ((r.visit parent n).run s).1) [.visit ⟨parent, n, ((r.visit parent n).run s).1⟩]
      ((r.visit parent n).run s).2 :=
  ⟨fun _ => rfl, rfl⟩

theorem leave (r : Revision (StateM σ)) (parent : Option Node) (before updated : Node)
    (changed : Bool) (s : σ) :
    Leads (liftM (r.recorded.leave parent before updated changed))
      (liftM (r.leave parent before updated changed)) s
      (.ok ((r.leave parent before updated changed).run s).1)
      [.leave ⟨parent, before, updated, changed, ((r.leave parent before updated changed).run s).1⟩]
      ((r.leave parent before updated changed).run s).2 :=
  ⟨fun _ => rfl, rfl⟩

end Leads

end Recording

-- ---------------------------------------------------------------------------
-- Decisions put together
-- ---------------------------------------------------------------------------

namespace Decisions

/-- The call of a step with its answer. -/
def call (d : Decisions) : Step → Call
  | .enter o => .visit ⟨o.parent, o.node, d.descends o.path⟩
  | .leave o updated changed => .leave ⟨o.parent, o.node, updated, changed, d.reply o.path⟩

/-- Whether the answer in a step cannot be followed. -/
def refuses (d : Decisions) : Step → Bool
  | .enter _ => false
  | .leave o _ _ => o.refuses (d.reply o.path)

/-- Answers that replace nothing. -/
def idle : Decisions := ⟨fun _ => true, fun _ => .same⟩

/-- The answers about a node, and those about the nodes below it. -/
def here (d : Decisions) (descends : Bool) (reply : Replacement) : Decisions where
  descends
    | [] => descends
    | i :: path => d.descends (i :: path)
  reply
    | [] => reply
    | i :: path => d.reply (i :: path)

/-- The same answers, but others about the nodes in the child at position `i`. -/
def withChild (d : Decisions) (i : Nat) (e : Decisions) : Decisions where
  descends
    | [] => d.descends []
    | j :: path => if j = i then e.descends path else d.descends (j :: path)
  reply
    | [] => d.reply []
    | j :: path => if j = i then e.reply path else d.reply (j :: path)

variable {d e : Decisions} {parent : Node} {cs : List (Field × Node)} {i : Nat} {s : Step}

theorem call_under (d : Decisions) (i : Nat) (s : Step) : d.call (s.under i) = (d.under i).call s := by
  cases s <;> rfl

theorem refuses_under (d : Decisions) (i : Nat) (s : Step) :
    d.refuses (s.under i) = (d.under i).refuses s := by
  cases s <;> rfl

theorem under_withChild_self (d : Decisions) (i : Nat) (e : Decisions) :
    (d.withChild i e).under i = e := by
  simp [under, seenFrom, withChild]

theorem under_withChild_of_ne (d : Decisions) {i j : Nat} (h : j ≠ i) (e : Decisions) :
    (d.withChild i e).under j = d.under j := by
  simp [under, seenFrom, withChild, h]

theorem under_here (d : Decisions) (descends : Bool) (reply : Replacement) (i : Nat) :
    (d.here descends reply).under i = d.under i := rfl

theorem leaving_mem_steps (d : Decisions) (holder : Option (Node × Field)) (n : Node) :
    d.leaving holder n ∈ d.steps holder n := by
  simp [steps, around]

/-- The steps in children are steps in one of them. -/
theorem exists_of_mem_innerOf (h : s ∈ d.innerOf parent i cs) :
    ∃ j, i ≤ j ∧ ∃ s' : Step, s = s'.under j := by
  induction cs generalizing i with
  | nil => cases h
  | cons c cs ih =>
    rw [innerOf, List.mem_append, List.mem_map] at h
    obtain ⟨s', -, rfl⟩ | h := h
    · exact ⟨i, Nat.le_refl i, s', rfl⟩
    · obtain ⟨j, hj, s', rfl⟩ := ih h
      exact ⟨j, by omega, s', rfl⟩

section Agreeing

-- answers that agree about the children from position `i` on
variable (h : ∀ j, i ≤ j → d.under j = e.under j)
include h

theorem updatedIn_congr : d.updatedIn i cs = e.updatedIn i cs := by
  induction cs generalizing i with
  | nil => rfl
  | cons c cs ih =>
    rw [updatedIn, updatedIn, h i (Nat.le_refl i), ih fun j hj => h j (by omega)]

theorem innerOf_congr : d.innerOf parent i cs = e.innerOf parent i cs := by
  induction cs generalizing i with
  | nil => rfl
  | cons c cs ih =>
    rw [innerOf, innerOf, h i (Nat.le_refl i), ih fun j hj => h j (by omega)]

theorem call_congr (hs : s ∈ d.innerOf parent i cs) : d.call s = e.call s := by
  obtain ⟨j, hj, s', rfl⟩ := exists_of_mem_innerOf hs
  rw [call_under, call_under, h j hj]

theorem refuses_congr (hs : s ∈ d.innerOf parent i cs) : d.refuses s = e.refuses s := by
  obtain ⟨j, hj, s', rfl⟩ := exists_of_mem_innerOf hs
  rw [refuses_under, refuses_under, h j hj]

end Agreeing

/-- If the answers below a node can be followed, and the one about it, then all of its visit can. -/
theorem follows_steps {holder : Option (Node × Field)} {n : Node}
    (hInner : ∀ s ∈ d.inner n, d.refuses s = false)
    (hFine : (Occurrence.mk [] holder n).refuses (d.reply []) = false) :
    ∀ s ∈ d.steps holder n, d.refuses s = false := by
  intro s hs
  rw [steps, around, List.mem_cons, List.mem_append, List.mem_singleton] at hs
  obtain rfl | hs | rfl := hs
  · rfl
  · exact hInner s hs
  · exact hFine

/-- How a part of a visit that would take some steps goes by decisions: to its end, if those of the steps
that count are followed, with the value that comes of it, or up to an answer that cannot be followed. -/
def Goes {α : Type} (d : Decisions) (steps counting : List Step) (value : α)
    (out : Except RevisionFault α) (calls : List Call) : Prop :=
  ∃ made rest, steps = made ++ rest ∧ calls = made.map d.call ∧
    match out with
    | .ok a => rest = [] ∧ a = value ∧ ∀ s ∈ counting, d.refuses s = false
    | .error _ => ∃ s ∈ made, d.refuses s = true

/-- How the visit of a node goes. The answer about the node itself is followed, or not, where it stands. -/
def Ran (d : Decisions) (holder : Option (Node × Field)) (n : Node) :
    Except RevisionFault Outcome → List Call → Prop :=
  d.Goes (d.steps holder n) (d.inner n) (d.outcome n)

/-- How the visit of children goes, of which the first has position `i`. -/
def RanAmong (d : Decisions) (parent : Node) (i : Nat) (cs : List (Field × Node)) :
    Except RevisionFault (List (Field × Node) × Bool) → List Call → Prop :=
  d.Goes (d.innerOf parent i cs) (d.innerOf parent i cs) (d.updatedIn i cs)

/-- A tree after a revision whose root stays one node. -/
def revised (d : Decisions) (root : Node) : Revised where
  node :=
    match d.reply [] with
    | .node n => n
    | .same | .nothing | .several _ => (d.updated root).1
  changed := (d.reply []).replaces || (d.updated root).2

/-- How the revision of a whole tree goes. -/
def RanWhole (d : Decisions) (root : Node) : Except RevisionFault Revised → List Call → Prop :=
  d.Goes (d.steps none root) (d.steps none root) (d.revised root)

/-- Answers that agree about children lead to the same visit of them. -/
theorem RanAmong.congr {out : Except RevisionFault (List (Field × Node) × Bool)} {calls : List Call}
    (hRan : d.RanAmong parent i cs out calls) (h : ∀ j, i ≤ j → d.under j = e.under j) :
    e.RanAmong parent i cs out calls := by
  obtain ⟨made, rest, hSteps, rfl, hOut⟩ := hRan
  have hMem : ∀ s ∈ made, s ∈ d.innerOf parent i cs := fun s hs => by
    rw [hSteps]
    exact List.mem_append_left _ hs
  refine ⟨made, rest, (innerOf_congr h).symm.trans hSteps,
    List.map_congr_left fun s hs => call_congr h (hMem s hs), ?_⟩
  cases out with
  | ok after =>
    obtain ⟨hRest, hAfter, hFine⟩ := hOut
    refine ⟨hRest, hAfter.trans (updatedIn_congr h), fun s hs => ?_⟩
    rw [← innerOf_congr h] at hs
    rw [← refuses_congr h hs]
    exact hFine s hs
  | error why =>
    obtain ⟨s, hs, hRefused⟩ := hOut
    refine ⟨s, hs, ?_⟩
    rw [← refuses_congr h (hMem s hs)]
    exact hRefused

namespace RanAmong

variable {f : Field} {n : Node} {why : RevisionFault} {o : Outcome} {calls calls' : List Call}

/-- What a visit of the first child has made of steps. -/
theorem map_call_under (d : Decisions) (i : Nat) (made : List Step) :
    (made.map (Step.under i)).map d.call = made.map (d.under i).call := by
  rw [List.map_map]
  exact List.map_congr_left fun s _ => call_under d i s

/-- The visit of the first child fails. -/
theorem stop (h : (d.under i).Ran (some (parent, f)) n (.error why) calls) :
    d.RanAmong parent i ((f, n) :: cs) (.error why) calls := by
  obtain ⟨made, rest, hSteps, rfl, s, hs, hRefused⟩ := h
  refine ⟨made.map (Step.under i), rest.map (Step.under i) ++ d.innerOf parent (i + 1) cs, ?_,
    (map_call_under d i made).symm, s.under i, List.mem_map_of_mem hs, ?_⟩
  · rw [innerOf, ← List.append_assoc, ← List.map_append, ← hSteps]
    rfl
  · rw [refuses_under]
    exact hRefused

/-- What takes the place of the first child cannot stand there. -/
theorem misfit (h : (d.under i).Ran (some (parent, f)) n (.ok o) calls)
    (hRefused : (Occurrence.mk [] (some (parent, f)) n).refuses ((d.under i).reply []) = true) :
    d.RanAmong parent i ((f, n) :: cs) (.error why) calls := by
  obtain ⟨made, rest, hSteps, rfl, rfl, -, -⟩ := h
  rw [List.append_nil] at hSteps
  have hLeft := leaving_mem_steps (d.under i) (some (parent, f)) n
  rw [hSteps] at hLeft
  refine ⟨made.map (Step.under i), d.innerOf parent (i + 1) cs, by rw [← hSteps]; rfl,
    (map_call_under d i made).symm, _, List.mem_map_of_mem hLeft, ?_⟩
  rw [refuses_under]
  exact hRefused

/-- The first child is visited, and then the others. -/
theorem cons {out : Except RevisionFault (List (Field × Node) × Bool)}
    (h : (d.under i).Ran (some (parent, f)) n (.ok o) calls)
    (hFine : (Occurrence.mk [] (some (parent, f)) n).refuses ((d.under i).reply []) = false)
    (hRest : d.RanAmong parent (i + 1) cs out calls') :
    d.RanAmong parent i ((f, n) :: cs)
      (out.map fun rest => ((o.inField f n).1 ++ rest.1, (o.inField f n).2 || rest.2))
      (calls ++ calls') := by
  obtain ⟨made, rest, hSteps, rfl, rfl, rfl, hInner⟩ := h
  obtain ⟨made', rest', hSteps', rfl, hOut⟩ := hRest
  rw [List.append_nil] at hSteps
  refine ⟨made.map (Step.under i) ++ made', rest', ?_, ?_, ?_⟩
  · rw [innerOf, hSteps', List.append_assoc, ← hSteps]
    rfl
  · rw [List.map_append, map_call_under]
  · cases out with
    | error why =>
      obtain ⟨s, hs, hRefused⟩ := hOut
      exact ⟨s, List.mem_append_right _ hs, hRefused⟩
    | ok after =>
      obtain ⟨hNone, rfl, hFineRest⟩ := hOut
      refine ⟨hNone, rfl, fun s hs => ?_⟩
      obtain hs | hs := List.mem_append.mp hs
      · obtain ⟨s', hs', rfl⟩ := List.mem_map.mp hs
        rw [refuses_under]
        exact follows_steps hInner hFine s' hs'
      · exact hFineRest s hs

end RanAmong

section Branches

variable {k : NodeKind} {why : RevisionFault} {calls : List Call}

/-- The visit of a node ends where that of its children does. -/
theorem RanAmong.ends (h : d.RanAmong (.branch k cs) 0 cs (.error why) calls) (reply : Replacement)
    (holder : Option (Node × Field)) :
    (d.here true reply).Ran holder (.branch k cs) (.error why)
      (.visit ⟨holder.map Prod.fst, .branch k cs, true⟩ :: calls) := by
  obtain ⟨made, rest, hSteps, rfl, s, hs, hRefused⟩ :=
    h.congr (e := d.here true reply) fun j _ => (under_here d true reply j).symm
  refine ⟨.enter ⟨[], holder, .branch k cs⟩ :: made,
    rest ++ [(d.here true reply).leaving holder (.branch k cs)], ?_, rfl, s,
    List.mem_cons_of_mem _ hs, hRefused⟩
  rw [List.cons_append, ← List.append_assoc, ← hSteps]
  rfl

/-- Children are visited to the end, and then the node is left. -/
theorem RanAmong.left {after : List (Field × Node) × Bool}
    (h : d.RanAmong (.branch k cs) 0 cs (.ok after) calls) (reply : Replacement)
    (holder : Option (Node × Field)) :
    (d.here true reply).Ran holder (.branch k cs)
      (.ok (.ofReplacement (.branch k after.1) after.2 reply))
      (.visit ⟨holder.map Prod.fst, .branch k cs, true⟩ ::
        (calls ++ [.leave ⟨holder.map Prod.fst, .branch k cs, .branch k after.1, after.2, reply⟩])) := by
  obtain ⟨made, rest, hSteps, rfl, rfl, rfl, hFine⟩ :=
    h.congr (e := d.here true reply) fun j _ => (under_here d true reply j).symm
  rw [List.append_nil] at hSteps
  have hInner : (d.here true reply).inner (.branch k cs) = made := hSteps
  refine ⟨_, [], (List.append_nil _).symm, ?_, rfl, rfl, hFine⟩
  rw [steps, around, hInner, List.map_cons, List.map_append]
  rfl

end Branches

section Roots

variable {root : Node} {why : RevisionFault} {o : Outcome} {calls : List Call}

/-- What takes the place of the root is not one node. -/
theorem Ran.loses (h : d.Ran none root (.ok o) calls)
    (hRefused : (Occurrence.mk [] none root).refuses (d.reply []) = true) :
    d.RanWhole root (.error why) calls := by
  obtain ⟨made, rest, hSteps, hCalls, rfl, -, -⟩ := h
  have hLeft := leaving_mem_steps d none root
  rw [hSteps, List.append_nil] at hLeft
  exact ⟨made, [], hSteps, hCalls, _, hLeft, hRefused⟩

/-- Any other tree is visited to the end. -/
theorem Ran.keeps (h : d.Ran none root (.ok o) calls)
    (hFine : (Occurrence.mk [] none root).refuses (d.reply []) = false) :
    d.RanWhole root (.ok (d.revised root)) calls := by
  obtain ⟨made, rest, hSteps, hCalls, rfl, -, hInner⟩ := h
  exact ⟨made, [], hSteps, hCalls, rfl, rfl, follows_steps hInner hFine⟩

end Roots

end Decisions

-- ---------------------------------------------------------------------------
-- Every visit goes by decisions
-- ---------------------------------------------------------------------------

section Visiting

variable {σ : Type} {r : Revision (StateM σ)} {P : Node → Replacement → Prop}

/-- All answers about what takes the place of a node are as `P` says. -/
def Answers (r : Revision (StateM σ)) (P : Node → Replacement → Prop) : Prop :=
  ∀ parent before updated changed s, P before ((r.leave parent before updated changed).run s).1

/-- The visit of a node, from any state, goes by decisions whose replies are as `P` says. -/
def GoesBy (r : Revision (StateM σ)) (P : Node → Replacement → Prop) (n : Node) : Prop :=
  ∀ holder s, ∃ (d : Decisions) (out : Except RevisionFault Outcome) (calls : List Call) (s' : σ),
    Leads (r.recorded.run (holder.map Prod.fst) n) (r.run (holder.map Prod.fst) n) s out calls s' ∧
      d.Ran holder n out calls ∧ ∀ o ∈ n.occurrences holder, P o.node (d.reply o.path)

/-- What comes to stand in a field for a child that was visited, if it can stand there. -/
def settled {m : Type → Type} [Monad m] (k : NodeKind) (f : Field) (n : Node) (o : Outcome) :
    ExceptT RevisionFault m (List (Field × Node) × Bool) :=
  match o with
  | .spread ns =>
    if k.isMany f then pure (ns.map fun n => (f, n), true) else throw (.fieldNotMany f k)
  | _ => pure (o.inField f n)

/-- Children are visited one after the other. -/
theorem runChildren_cons {m : Type → Type} [Monad m] (r : Revision m) (k : NodeKind) (parent : Node)
    (f : Field) (n : Node) (cs : List (Field × Node)) :
    r.runChildren k parent ((f, n) :: cs) = (do
      let o ← r.run (some parent) n
      let front ← settled k f n o
      let rest ← r.runChildren k parent cs
      pure (front.1 ++ rest.1, front.2 || rest.2)) := by
  rw [runChildren]
  congr 1
  funext o
  cases o with
  | spread ns =>
    unfold settled
    by_cases hMany : k.isMany f = true
    · simp only [if_pos hMany]
    · simp only [if_neg hMany]
  | _ => rfl

/-- An answer that cannot be followed ends the visit. -/
theorem leads_settled_error {k : NodeKind} {siblings : List (Field × Node)} {f : Field} {n : Node}
    {a : Replacement}
    (hRefused : (Occurrence.mk [] (some (.branch k siblings, f)) n).refuses a = true)
    (updated : Node) (changed : Bool) (s : σ) :
    Leads (settled k f n (.ofReplacement updated changed a))
      (settled k f n (.ofReplacement updated changed a)) s (.error (.fieldNotMany f k)) [] s := by
  cases a with
  | several ns =>
    have hMany : ¬k.isMany f = true := by simpa [Occurrence.refuses] using hRefused
    simp only [settled, Outcome.ofReplacement, if_neg hMany]
    exact .throw _ _
  | _ => cases hRefused

/-- Any other is followed. -/
theorem leads_settled {k : NodeKind} {siblings : List (Field × Node)} {f : Field} {n : Node}
    {a : Replacement}
    (hFine : (Occurrence.mk [] (some (.branch k siblings, f)) n).refuses a = false)
    (updated : Node) (changed : Bool) (s : σ) :
    let o := Outcome.ofReplacement updated changed a
    Leads (settled k f n o) (settled k f n o) s (.ok (o.inField f n)) [] s := by
  cases a with
  | several ns =>
    have hMany : k.isMany f = true := by simpa [Occurrence.refuses] using hFine
    simp only [settled, Outcome.ofReplacement, if_pos hMany]
    exact .pure _ _
  | same => cases changed <;> exact .pure _ _
  | _ => exact .pure _ _

/-- The visit of children goes by decisions if the visit of each of them does. -/
theorem exists_ran_among (hSame : ∀ n, P n .same) {k : NodeKind} {parent : Node}
    {siblings : List (Field × Node)} (hParent : parent = .branch k siblings)
    {cs : List (Field × Node)} (h : ∀ c ∈ cs, r.GoesBy P c.2) (i : Nat) (s : σ) :
    ∃ (d : Decisions) (out : Except RevisionFault (List (Field × Node) × Bool)) (calls : List Call)
      (s' : σ), Leads (r.recorded.runChildren k parent cs) (r.runChildren k parent cs) s out calls s' ∧
        d.RanAmong parent i cs out calls ∧
        ∀ o ∈ Node.occurrencesIn parent i cs, P o.node (d.reply o.path) := by
  induction cs generalizing i s with
  | nil =>
    unfold runChildren
    exact ⟨.idle, _, [], s, .pure _ s, ⟨[], [], rfl, rfl, rfl, rfl, nofun⟩, nofun⟩
  | cons c cs ih =>
    obtain ⟨f, n⟩ := c
    obtain ⟨d, out, calls, s', hLeads, hRan, hReplies⟩ :=
      h (f, n) List.mem_cons_self (some (parent, f)) s
    -- answers about the first child, and others about the rest
    have hReplies' (e : Decisions) (hRest : ∀ o ∈ Node.occurrencesIn parent (i + 1) cs,
        P o.node (e.reply o.path)) :
        ∀ o ∈ Node.occurrencesIn parent i ((f, n) :: cs), P o.node ((e.withChild i d).reply o.path) := by
      intro o ho
      rw [Node.occurrencesIn, List.mem_append, List.mem_map] at ho
      obtain ⟨o, ho, rfl⟩ | ho := ho
      · have hUnder := congrArg (·.reply o.path) (e.under_withChild_self i d)
        exact (show (e.withChild i d).reply (o.under i).path = d.reply o.path from hUnder) ▸
          hReplies o ho
      · obtain ⟨j, g, m, o', -, -, rfl⟩ := Node.exists_of_mem_occurrencesIn ho
        have hUnder := congrArg (·.reply o'.path)
          (e.under_withChild_of_ne (show i + 1 + j ≠ i by omega) d)
        exact (show (e.withChild i d).reply (o'.under (i + 1 + j)).path =
          e.reply (o'.under (i + 1 + j)).path from hUnder) ▸ hRest _ ho
    have hIdle := hReplies' .idle fun o _ => hSame o.node
    have hHead (e : Decisions) : ((e.withChild i d).under i).Ran (some (parent, f)) n out calls := by
      rw [e.under_withChild_self]
      exact hRan
    rw [runChildren_cons, runChildren_cons]
    cases out with
    | error why => exact ⟨_, _, _, _, hLeads.stop, .stop (hHead .idle), hIdle⟩
    | ok o =>
      obtain rfl : o = d.outcome n := by
        obtain ⟨-, -, -, -, -, hOutcome, -⟩ := hRan
        exact hOutcome
      subst hParent
      cases hRefuses : (Occurrence.mk [] (some (.branch k siblings, f)) n).refuses (d.reply []) with
      | true =>
        refine ⟨_, _, _, _,
          hLeads.bind (leads_settled_error hRefuses (d.updated n).1 (d.updated n).2 s').stop, ?_, hIdle⟩
        rw [List.append_nil]
        refine .misfit (hHead .idle) ?_
        rw [Decisions.under_withChild_self]
        exact hRefuses
      | false =>
        obtain ⟨e, out', calls', s'', hLeads', hRan', hRest⟩ :=
          ih (fun c' hc' => h c' (List.mem_cons_of_mem _ hc')) (i + 1) s'
        have hAgree : ∀ j, i + 1 ≤ j → e.under j = (e.withChild i d).under j := fun j hj =>
          (e.under_withChild_of_ne (by omega) d).symm
        have hAll := Decisions.RanAmong.cons (hHead e)
          (by rw [Decisions.under_withChild_self]; exact hRefuses) (hRan'.congr hAgree)
        refine ⟨e.withChild i d, _, _, s'',
          hLeads.bind ((leads_settled hRefuses (d.updated n).1 (d.updated n).2 s').bind ?_), hAll,
          hReplies' e hRest⟩
        cases out' with
        | error why => exact hLeads'.stop
        | ok after => exact List.append_nil calls' ▸ hLeads'.bind (.pure _ _)

/-- Answers about a node, and others about the nodes below it. -/
theorem reply_here {d : Decisions} {k : NodeKind} {cs : List (Field × Node)} {a : Replacement}
    (hHere : P (.branch k cs) a)
    (hBelow : ∀ o ∈ Node.occurrencesIn (.branch k cs) 0 cs, P o.node (d.reply o.path)) (b : Bool)
    (holder : Option (Node × Field)) :
    ∀ o ∈ (Node.branch k cs).occurrences holder, P o.node ((d.here b a).reply o.path) := by
  intro o ho
  rw [Node.occurrences, List.mem_cons] at ho
  obtain rfl | ho := ho
  · exact hHere
  · have hReply := hBelow o ho
    obtain ⟨j, f, n, o', -, -, rfl⟩ := Node.exists_of_mem_occurrencesIn ho
    exact hReply

/-- Every visit goes by decisions. -/
theorem exists_ran (hP : r.Answers P) (hSame : ∀ n, P n .same) (n : Node) : r.GoesBy P n := by
  induction n using Node.induct with
  | token t =>
    intro holder s
    refine ⟨Decisions.idle.here _ _, _, _, _,
      (Leads.visit r _ (.token t) s).bind ((Leads.leave r _ (.token t) (.token t) false _).bind (.pure _ _)),
      ⟨_, [], (List.append_nil _).symm, rfl, rfl, rfl, nofun⟩, fun o ho => ?_⟩
    obtain rfl := List.mem_singleton.mp ho
    exact hP _ _ _ _ _
  | branch k cs ih =>
    intro holder s
    have hVisit := Leads.visit r (holder.map Prod.fst) (.branch k cs) s
    unfold run
    cases hAnswer : ((r.visit (holder.map Prod.fst) (.branch k cs)).run s).1 with
    | false =>
      rw [hAnswer] at hVisit
      refine ⟨Decisions.idle.here false _, _, _, _,
        hVisit.bind (.bind (.pure (cs, false) _) ((Leads.leave r _ _ _ _ _).bind (.pure _ _))),
        ⟨_, [], (List.append_nil _).symm, rfl, rfl, rfl, nofun⟩, ?_⟩
      exact reply_here (hP _ _ _ _ _) (fun o _ => hSame o.node) _ holder
    | true =>
      rw [hAnswer] at hVisit
      obtain ⟨d, out, calls, s', hLeads, hRan, hReplies⟩ :=
        exists_ran_among hSame (rfl : Node.branch k cs = _) ih 0
          ((r.visit (holder.map Prod.fst) (.branch k cs)).run s).2
      cases out with
      | error why =>
        exact ⟨d.here true .same, _, _, _, hVisit.bind hLeads.stop, hRan.ends .same holder,
          reply_here (hSame _) hReplies true holder⟩
      | ok after =>
        have hLeave := Leads.leave r (holder.map Prod.fst) (.branch k cs) (.branch k after.1) after.2 s'
        have hReply := hP (holder.map Prod.fst) (.branch k cs) (.branch k after.1) after.2 s'
        exact ⟨_, _, _, _, hVisit.bind (hLeads.bind (hLeave.bind (.pure _ _))), hRan.left _ holder,
          reply_here hReply hReplies true holder⟩

/-- What a tree is after its root was visited, if the root stays one node. -/
def concluded {m : Type → Type} [Monad m] (root : Node) : Outcome → ExceptT RevisionFault m Revised
  | .kept => pure ⟨root, false⟩
  | .replaced n => pure ⟨n, true⟩
  | .removed | .spread _ => throw .rootNotSingle

theorem apply_eq {m : Type → Type} [Monad m] (r : Revision m) (root : Node) :
    r.apply root = r.run none root >>= concluded root := rfl

/-- A root that does not stay one node ends the revision. -/
theorem leads_concluded_error {root : Node} {a : Replacement}
    (hRefused : (Occurrence.mk [] none root).refuses a = true) (updated : Node) (changed : Bool)
    (s : σ) :
    Leads (concluded root (.ofReplacement updated changed a))
      (concluded root (.ofReplacement updated changed a)) s (.error .rootNotSingle) [] s := by
  cases a with
  | nothing | several ns => exact .throw _ _
  | same | node n => cases hRefused

/-- Any other is the root of the tree from then on. -/
theorem leads_concluded {d : Decisions} {root : Node}
    (hFine : (Occurrence.mk [] none root).refuses (d.reply []) = false) (s : σ) :
    Leads (concluded root (d.outcome root)) (concluded root (d.outcome root)) s
      (.ok (d.revised root)) [] s := by
  rw [Decisions.outcome, Decisions.revised]
  cases hReply : d.reply [] with
  | same =>
    cases hChanged : (d.updated root).2 with
    | true => exact .pure _ _
    | false =>
      rw [d.updated_eq_self root hChanged]
      exact .pure _ _
  | node n => exact .pure _ _
  | nothing | several ns =>
    rw [hReply] at hFine
    cases hFine

/-- The revision of a whole tree goes by decisions, whether the calls are noted or not. -/
theorem exists_ranWhole (hP : r.Answers P) (hSame : ∀ n, P n .same) (root : Node) (s : σ) :
    ∃ (d : Decisions) (s' : σ),
      Leads (r.recorded.apply root) (r.apply root) s (r.applied root s) (r.calls root s) s' ∧
        d.RanWhole root (r.applied root s) (r.calls root s) ∧
        ∀ o ∈ root.occurrences none, P o.node (d.reply o.path) := by
  obtain ⟨d, out, calls, s', hLeads, hRan, hReplies⟩ := exists_ran hP hSame root none s
  -- the outcome and the calls of the whole are those that the parts lead to
  suffices ∃ out', Leads (r.recorded.apply root) (r.apply root) s out' calls s' ∧
      d.RanWhole root out' calls by
    obtain ⟨out', hWhole, hRanWhole⟩ := this
    have hApplied : r.applied root s = out' := by rw [applied, hWhole.2]
    have hCalls : r.calls root s = calls := by
      rw [Revision.calls, hWhole.1]
      rfl
    rw [hApplied, hCalls]
    exact ⟨d, s', hWhole, hRanWhole, hReplies⟩
  rw [apply_eq, apply_eq]
  cases out with
  | error why => exact ⟨_, hLeads.stop, hRan⟩
  | ok o =>
    obtain rfl : o = d.outcome root := by
      obtain ⟨-, -, -, -, -, hOutcome, -⟩ := hRan
      exact hOutcome
    rw [← List.append_nil calls]
    cases hRefuses : (Occurrence.mk [] none root).refuses (d.reply []) with
    | true =>
      refine ⟨_, hLeads.bind (leads_concluded_error hRefuses _ _ s'), ?_⟩
      rw [List.append_nil]
      exact hRan.loses hRefuses
    | false =>
      refine ⟨_, hLeads.bind (leads_concluded hRefuses s'), ?_⟩
      rw [List.append_nil]
      exact hRan.keeps hRefuses

end Visiting

end Revision

end SourceMigration
