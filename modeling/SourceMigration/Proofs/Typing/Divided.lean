import SourceMigration.Proofs.Tree.Fresh
import SourceMigration.Proofs.Typing.Statements

/-!
# SourceMigration — what is left of names in statements

A dotted name directly in a statement is divided after its longest part that denotes a type. So
where such a name is left whole and denotes nothing, not even its first part means anything: were
it the simple name of an import, the name would have been divided there. Elsewhere, in the header of
a method or a class and among type arguments, a dotted name is never divided.

## Results

* `divide_spec`   — a name is divided, or none of its parts means anything.
* `heads_ofUnit`  — in the statements of an attributed unit, what denotes nothing begins with a part
  that means nothing.
-/

namespace SourceMigration

/-- An element that denotes nothing and begins a chain: a name before which no point stands. -/
def unknownHead? (before : Option Node) (e : Node) : Option Node :=
  match e with
  | .branch (.name none) _ => if before.any (·.isToken ".") then none else some e
  | _ => none

/-- The elements of a run that denote nothing and begin a chain. -/
def unknownHeads : Option Node → List Node → List Node
  | _, [] => []
  | before, e :: rest => (unknownHead? before e).toList ++ unknownHeads (some e) rest

/-- A name of which the first part means nothing. -/
def Scope.Ignores (s : Scope) (n : Node) : Prop := s.resolveParts (n.nameParts.take 1) = none

namespace Attribution

variable {s : Scope}

-- ---------------------------------------------------------------------------
-- Heads
-- ---------------------------------------------------------------------------

/-- A node that is no name is no head. -/
theorem unknownHead_eq_none {e : Node} (h : ∀ cs, e ≠ .branch (.name none) cs)
    (before : Option Node) : unknownHead? before e = none := by
  unfold unknownHead?
  split
  · exact absurd rfl (h _)
  · rfl

/-- A head of a run is a head of a part of it. -/
theorem unknownHeads_append (before : Option Node) (ns ms : List Node) :
    unknownHeads before (ns ++ ms) =
      unknownHeads before ns ++ unknownHeads (ns.getLast? <|> before) ms := by
  induction ns generalizing before with
  | nil => rfl
  | cons e ns ih =>
    have hLast : ((e :: ns).getLast? <|> before) = (ns.getLast? <|> some e) := by
      cases ns with
      | nil => rfl
      | cons e' ns =>
        rw [List.getLast?_cons_cons, List.getLast?_eq_getLast_of_ne_nil (by simp)]
        rfl
    rw [List.cons_append, hLast, unknownHeads, unknownHeads, ih, List.append_assoc]

/-- Attaching methods to calls does not change the heads. -/
theorem unknownHeads_called {cs cs' : List (Field × Node)} (h : List.Forall₂ Called cs cs')
    {before before' : Option Node}
    (hBefore : before'.any (·.isToken ".") = before.any (·.isToken ".")) :
    unknownHeads before' (cs'.map Prod.snd) = unknownHeads before (cs.map Prod.snd) := by
  induction h generalizing before before' with
  | nil => rfl
  | @cons c c' cs cs' hc _ ih =>
    rw [List.map_cons, List.map_cons, unknownHeads, unknownHeads]
    cases hc with
    | same =>
      rw [ih rfl]
      congr 2
      unfold unknownHead?
      rw [hBefore]
    | attached f m ds =>
      rw [unknownHead_eq_none (by simp), unknownHead_eq_none (by simp)]
      exact congrArg _ (ih rfl)

-- ---------------------------------------------------------------------------
-- Dividing a name
-- ---------------------------------------------------------------------------

/-- After some links comes another, as long as there is one. -/
theorem exists_drop_links {links : List Token} (h : Links links) {count : Nat}
    (hCount : 2 * count < links.length) :
    ∃ dot rest, links.drop (2 * count) = dot :: rest ∧ dot.isPoint := by
  induction h generalizing count with
  | nil => simp at hCount
  | @cons dot t ts hDot _ _ ih =>
    cases count with
    | zero => exact ⟨dot, t :: ts, rfl, hDot⟩
    | succ count =>
      simp only [List.length_cons] at hCount
      have hFewer : 2 * count < ts.length := by omega
      exact ih hFewer

/-- A name is divided at a point, after the longest part it begins with that means anything, or no
such part means anything. -/
theorem divide_spec {t : Token} {links : List Token} (h : Links links) {parts : List String}
    {count : Nat} (hCount : 2 * count ≤ links.length) :
    (∃ k u dot back, k < count ∧ (t :: links).drop (2 * k + 1) = dot :: back ∧ dot.isPoint ∧
        s.resolveParts (parts.take (k + 1)) = some u ∧
        (∀ j, k + 1 < j → j ≤ count → s.resolveParts (parts.take j) = none) ∧
        divide? s ((t :: links).map fun t => (.tokens, .token t)) parts count =
          some [Node.nameOf (some u) ((t :: links).take (2 * k + 1)), .token dot,
            Node.nameOf none back]) ∨
      divide? s ((t :: links).map fun t => (.tokens, .token t)) parts count = none ∧
        ∀ k, 1 ≤ k → k ≤ count → s.resolveParts (parts.take k) = none := by
  induction count with
  | zero => exact Or.inr ⟨rfl, fun k hOne hZero => by omega⟩
  | succ count ih =>
    rw [divide?]
    cases hResolve : s.resolveParts (parts.take (count + 1)) with
    | some u =>
      have hFewer : 2 * count < links.length := by omega
      obtain ⟨dot, rest, hDrop, hDot⟩ := exists_drop_links h hFewer
      left
      refine ⟨count, u, dot, rest, Nat.lt_succ_self _, hDrop, hDot, hResolve, ?_, ?_⟩
      · intro j hLt hLe
        omega
      · rw [Node.nameOf, Node.nameOf, List.map_take]
        simp only [← List.map_drop, List.drop_succ_cons, hDrop, List.map_cons]
    | none =>
      -- the part that was tried means nothing, so the answer comes from the shorter ones
      have hLonger {j : Nat} (hLe : j ≤ count + 1)
        (hShorter : j ≤ count → s.resolveParts (parts.take j) = none) :
          s.resolveParts (parts.take j) = none := by
        rcases Nat.lt_or_ge j (count + 1) with hLt | hGe
        · exact hShorter (by omega)
        · rw [show j = count + 1 by omega, hResolve]
      rcases ih (by omega) with ⟨k, u, dot, rest, hk, hDrop, hDot, hu, hNone, hDivided⟩ | ⟨hWhole, hNone⟩
      · refine Or.inl ⟨k, u, dot, rest, by omega, hDrop, hDot, hu, ?_, hDivided⟩
        exact fun j hLt hLe => hLonger hLe (hNone j hLt)
      · exact Or.inr ⟨hWhole, fun j hOne hLe => hLonger hLe (hNone j hOne)⟩

/-- What a name in a statement becomes has no head that begins with a part that means anything. -/
theorem heads_ofName {ts : List Token} (h : Chain ts) (before : Option Node) :
    ∀ n ∈ unknownHeads before (ofName s true (ts.map fun t => (.tokens, .token t))).value,
      s.Ignores n := by
  have hSelf (hNone : s.resolveParts ((Node.nameOf none ts).nameParts.take 1) = none) :
      ∀ n ∈ unknownHeads before [Node.nameOf none ts], s.Ignores n := by
    intro n hn
    have hMem : unknownHead? before (Node.nameOf none ts) = some n := by
      simpa [unknownHeads] using hn
    simp only [unknownHead?, Node.nameOf, Option.ite_none_left_eq_some, Option.some.injEq] at hMem
    exact hMem.2 ▸ hNone
  obtain ⟨t, links, rfl, ht, hLinks⟩ := h
  have hParts : (Node.nameOf none (t :: links)).nameParts = t.text ::
      links.filterMap fun t => if t.kind = .identifier then some t.text else none := by
    simp [Node.nameParts, Node.nameOf, filed, List.filterMap_map, ht]
  unfold ofName
  simp only [Bool.true_and, decide_eq_true_eq]
  rw [← Node.nameOf]
  split
  · intro n hn
    cases hn
  · rename_i hWhole
    split
    · rename_i hDotted
      have hLength := length_links hLinks
      have hCount : 2 * ((Node.nameOf none (t :: links)).nameParts.length - 1) ≤ links.length := by
        rw [hParts, List.length_cons]
        omega
      rcases divide_spec hLinks hCount with ⟨k, u, dot, back, -, -, hDot, -, -, hDivided⟩ | ⟨hNot, hNone⟩
      · rw [hDivided]
        -- the rest of the name stands after a point
        have hPoint : (Node.token dot).isToken "." = true := by
          simp [Node.isToken, Token.spells, hDot.1, hDot.2]
        simp [unknownHeads, unknownHead?, Node.nameOf, hPoint]
      · rw [hNot]
        exact hSelf (hNone 1 (Nat.le_refl 1) (by omega))
    · rename_i hSimple
      refine hSelf ?_
      rw [List.take_of_length_le (by omega)]
      exact hWhole

-- ---------------------------------------------------------------------------
-- Whole trees
-- ---------------------------------------------------------------------------

/-- A head in what the elements of a statement become begins with a part that means nothing. -/
theorem heads_ofChildren (s : Surroundings) {cs : List (Field × Node)}
    (h : ∀ c ∈ cs, c.2.WellFormed ∧ c.2.Bare ∧ c.2.Chained) (before : Option Node) :
    ∀ n ∈ unknownHeads before ((ofChildren s true cs).value.map Prod.snd), s.scope.Ignores n := by
  induction cs generalizing before with
  | nil => simp [ofChildren, unknownHeads]
  | cons c cs ih =>
    obtain ⟨f, e⟩ := c
    obtain ⟨hFine, hBare, hChained⟩ := h _ List.mem_cons_self
    have hHead : ∀ n ∈ unknownHeads before (ofNode s true e).value, s.scope.Ignores n := by
      by_cases hName : e.form = .name
      · obtain ⟨t, ds, rfl⟩ := Node.exists_name hName
        obtain ⟨ts, rfl⟩ := hFine.exists_tokens
        cases hBare with
        | branch hKind _ =>
          cases t with
          | some t => cases hKind
          | none =>
            rw [ofNode]
            cases hChained with
            | branch hChain _ =>
              refine heads_ofName ?_ before
              simpa [Node.tokensOf_eq, Node.tokens, List.flatMap_map] using hChain rfl
      · obtain ⟨m, hm, hForm⟩ := (annotates_ofNode (s := s) (b := true) hFine).single (Or.inr hName)
        rw [hm, unknownHeads, unknownHead_eq_none]
        · simp [unknownHeads]
        · rintro ds rfl
          exact hName hForm.symm
    intro n hn
    rw [ofChildren, List.map_append, List.map_map] at hn
    have hSame : (ofNode s true e).value.map (Prod.snd ∘ fun n => (f, n)) = (ofNode s true e).value :=
      List.map_id _
    rw [hSame, unknownHeads_append] at hn
    rcases List.mem_append.mp hn with hn | hn
    · exact hHead n hn
    · exact ih (fun d hd => h d (List.mem_cons_of_mem _ hd)) _ n hn

/-- In the statements of an attributed unit, what denotes nothing begins with a part that means
nothing. -/
theorem heads_ofUnit (classpath : Classpath) {unit : Node} (h : unit.WellFormed)
    (hUnit : unit.form = .unit) (hBare : unit.Bare) (hChained : unit.Chained) :
    ∀ type ∈ (ofUnit classpath unit).value.field .types, ∀ st ∈ type.walk, st.form = .statement →
      ∀ n ∈ unknownHeads none (st.children.map Prod.snd),
        (Scope.ofUnit unit classpath).Ignores n := by
  intro type hType st hSt hStatement
  obtain ⟨s, cs, hStands, rfl⟩ :=
    statements_ofUnit classpath h hUnit type hType st hSt hStatement
  obtain ⟨hFine, hBare, hChained⟩ := hStands.inherit
    (P := fun n => n.WellFormed ∧ n.Bare ∧ n.Chained) ⟨h, hBare, hChained⟩
    fun k ds h c hc => ⟨h.1.child hc, h.2.1.child hc, h.2.2.child hc⟩
  intro n hn
  have hSame : unknownHeads none ((ofCalls s [] (ofChildren s true cs).value).value.map Prod.snd) =
      unknownHeads none ((ofChildren s true cs).value.map Prod.snd) :=
    unknownHeads_called (called_ofCalls s [] _) rfl
  rw [statementOf, Node.children, hSame] at hn
  have hScope : s.scope = Scope.ofUnit unit classpath := hStands.scope_eq
  rw [← hScope]
  exact heads_ofChildren s (fun c hc => ⟨hFine.child hc, hBare.child hc, hChained.child hc⟩) none n hn

end Attribution

end SourceMigration
