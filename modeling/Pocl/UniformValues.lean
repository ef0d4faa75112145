import Mathlib.Data.List.GetD
import Pocl.SymbolicValues

/-!
# Values that are the same for all work-items

What the analysis takes for uniform is computed from arguments, integers, variables of the
group, addresses of allocas and what is read from other memory through these.  Two
work-items can still obtain different values: they may go ways on which different stores
reach a load, and the other memory may be written to meanwhile.  The analysis looks at
neither.
-/

namespace Pocl.VariableUniformity

section Soundness

variable {V : Type*} {f : Function} {cache : Cache} {stable : InstId → Bool} {v : InstId}

theorem Function.inst_of_promotable {a : InstId} (hpromotable : f.promotable a = true) :
    f.inst a = .alloca := by
  unfold Function.promotable at hpromotable
  rw [Bool.and_eq_true, decide_eq_true_eq] at hpromotable
  exact hpromotable.1

theorem Justified.inst_empty {i : InstId} (hjustified : Justified f ∅ cache)
    (huniform : cache (.inst i) = some true) : InstJustified f cache i :=
  (hjustified.inst huniform).resolve_left (Set.notMem_empty i)

/-- The analysis takes for uniform what the value of a uniform instruction is computed
from. -/
theorem Justified.tracks (hjustified : Justified f ∅ cache) :
    Tracks f (fun value => cache value = some true) where
  operands i huniform := by
    have hinst := hjustified.inst_empty huniform
    unfold InstJustified at hinst
    cases hi : f.inst i with
    | alloca => exact Or.inr fun operand hoperand => absurd hoperand List.not_mem_nil
    | load pointer =>
        rw [hi] at hinst
        obtain hgroup | hpointer := hinst
        · exact Or.inl ⟨pointer, rfl, hgroup⟩
        · refine Or.inr fun operand hoperand => ?_
          rwa [List.mem_singleton.mp hoperand]
    | store value pointer =>
        rw [hi] at hinst
        exact Or.inr hinst
    | compute opcode operands =>
        rw [hi] at hinst
        exact Or.inr hinst
    | access opcode operands =>
        rw [hi] at hinst
        exact Or.inr hinst
  stored a i value huniform hpromotable hstore := by
    have husers := hjustified.inst_empty huniform
    unfold InstJustified at husers
    rw [Function.inst_of_promotable hpromotable] at husers
    have hused : i ∈ f.users a := (f.mem_users a i).mpr (by simp [hstore, Inst.operands])
    obtain ⟨_, hother⟩ | ⟨value', pointer, hother, hvalue⟩ := husers i hused
    · rw [hstore] at hother
      cases hother
    · rw [hstore, Inst.store.injEq] at hother
      exact hother.1 ▸ hvalue

/-- The expressions for an instruction on the way of one of two work-items. -/
def expressions (f : Function) (stable : InstId → Bool) (isTrue : Expr → Bool)
    (equals : Expr → ℤ → Bool) (second : Bool) (v : InstId) (n : ℕ) : List Expr :=
  executions f (symbolicGroup isTrue equals) (symbolicItem stable second) v n
    (State.initial f (symbolicGroup isTrue equals))

/-- On all ways of two work-items the instruction is computed in the same way, and from
memory that does not change.  Branches whose conditions are the same expression go the
same way. -/
def SameExpressions (f : Function) (stable : InstId → Bool) (v : InstId) : Prop :=
  ∀ (isTrue : Expr → Bool) (equals : Expr → ℤ → Bool) (n m k : ℕ) (x y : Expr),
    (expressions f stable isTrue equals false v n)[k]? = some x →
    (expressions f stable isTrue equals true v m)[k]? = some y →
    x.erase = y.erase ∧ (x.known = true → ∀ read ∈ x.reads, stable read.1 = true)

variable {isTrue : Expr → Bool} {equals : Expr → ℤ → Bool} {second : Bool} {n : ℕ} {x : Expr}

/-- What the analysis takes for uniform is not computed from global variables. -/
theorem known_of_uniform (hjustified : Justified f ∅ cache)
    (huniform : cache (.inst v) = some true)
    (hx : x ∈ expressions f stable isTrue equals second v n) : x.known = true := by
  have hkeeps : KeepsGood (symbolicGroup isTrue equals) (symbolicItem stable second)
      (fun value => cache value = some true) (fun x => x.known = true) :=
    { argument := fun _ => rfl
      constantInt := fun _ => rfl
      globalAddress := fun _ hglobal => (hjustified _ hglobal).elim
      other := fun _ hother => (hjustified _ hother).elim
      groupVariable := fun _ => rfl
      allocaAddress := fun _ => rfl
      undefined := rfl
      compute := fun _ _ hoperands =>
        (Expr.known_applyAll ..).trans (by simpa [Expr.known] using hoperands)
      outside := fun _ _ _ hoperands =>
        (Expr.known_applyAll ..).trans (by simpa [Expr.known] using hoperands) }
  exact hkeeps.executions hjustified.tracks huniform n hx

/-- The reads of memory that may change are those of the work-item. -/
theorem moment_of_read (hx : x ∈ expressions f stable isTrue equals second v n) :
    ∀ read ∈ x.reads, ∃ clock,
      read.2 = if stable read.1 then none else some (second, clock) := by
  have hkeeps : KeepsGood (symbolicGroup isTrue equals) (symbolicItem stable second)
      (fun _ => True) (fun x => ∀ read ∈ x.reads, ∃ clock,
        read.2 = if stable read.1 then none else some (second, clock)) :=
    { argument := fun _ _ hread => absurd hread List.not_mem_nil
      constantInt := fun _ _ hread => absurd hread List.not_mem_nil
      globalAddress := fun _ _ _ hread => absurd hread List.not_mem_nil
      other := fun _ _ _ hread => absurd hread List.not_mem_nil
      groupVariable := fun _ _ hread => absurd hread List.not_mem_nil
      allocaAddress := fun _ _ hread => absurd hread List.not_mem_nil
      undefined := fun _ hread => absurd hread List.not_mem_nil
      compute := fun _ operands hoperands read hread => by
        obtain ⟨operand, hoperand, hmem⟩ : ∃ operand ∈ operands, read ∈ operand.reads := by
          simpa [symbolicGroup, Expr.reads_applyAll, Expr.reads] using hread
        exact hoperands operand hoperand read hmem
      outside := fun clock i operands hoperands read hread => by
        obtain rfl | ⟨operand, hoperand, hmem⟩ :
            read = (i, if stable i then none else some (second, clock)) ∨
              ∃ operand ∈ operands, read ∈ operand.reads := by
          simpa [symbolicItem, Expr.reads_applyAll, Expr.reads] using hread
        · exact ⟨clock, rfl⟩
        · exact hoperands operand hoperand read hmem }
  have htracks : Tracks f (fun _ => True) :=
    ⟨fun _ _ => Or.inr fun _ _ => trivial, fun _ _ _ _ _ _ => trivial⟩
  exact hkeeps.executions htracks trivial n hx

theorem erase_of_stable (hx : x ∈ expressions f stable isTrue equals second v n)
    (hstable : ∀ i ∈ x.reads.map Prod.fst, stable i = true) : x.erase = x := by
  refine Expr.erase_eq_self fun read hread => ?_
  obtain ⟨clock, hmoment⟩ := moment_of_read hx read hread
  rwa [hstable read.1 (List.mem_map_of_mem hread), if_pos rfl] at hmoment

theorem SameExpressions.sameValues (hsame : SameExpressions f stable v)
    (hjustified : Justified f ∅ cache) (huniform : cache (.inst v) = some true)
    {group : WorkGroup V} {first second : WorkItem V}
    (hstable : StableReads stable first second) : SameValues f group first second v := by
  intro n m k a b ha hb
  have hfirst : Interprets _ (symbolicItem stable false) group first _ :=
    interprets_symbolic hstable false
  have hsecond : Interprets _ (symbolicItem stable true) group second _ :=
    interprets_symbolic hstable true
  rw [hfirst.executions_eq, List.getElem?_map, Option.map_eq_some_iff] at ha
  rw [hsecond.executions_eq, List.getElem?_map, Option.map_eq_some_iff] at hb
  obtain ⟨x, hx, rfl⟩ := ha
  obtain ⟨y, hy, rfl⟩ := hb
  obtain ⟨herase, hreads⟩ := hsame _ _ n m k x y hx hy
  have hmem := List.mem_of_getElem? hx
  have hfirst : ∀ i ∈ x.reads.map Prod.fst, stable i = true := by
    intro i hi
    obtain ⟨read, hread, rfl⟩ := List.mem_map.mp hi
    exact hreads (known_of_uniform hjustified huniform hmem) read hread
  have hsecond : ∀ i ∈ y.reads.map Prod.fst, stable i = true := by
    rwa [← y.map_reads_erase, ← herase, x.map_reads_erase]
  have hxy : x = y := by
    rw [← erase_of_stable hmem hfirst, herase,
      erase_of_stable (List.mem_of_getElem? hy) hsecond]
  rw [hxy]

theorem sameExpressions_of_sameValues
    (hsame : ∀ (group : WorkGroup Expr) (first second : WorkItem Expr),
      StableReads stable first second → SameValues f group first second v) :
    SameExpressions f stable v := by
  intro isTrue equals n m k x y hx hy
  have hstable : StableReads stable (symbolicItem stable false) (symbolicItem stable true) := by
    intro i hi clock clock' operands
    simp [symbolicItem, hi]
  have hxy : x = y := hsame _ _ _ hstable n m k x y hx hy
  subst hxy
  refine ⟨rfl, fun _ read hread => ?_⟩
  obtain ⟨clock, hfirst⟩ := moment_of_read (List.mem_of_getElem? hx) read hread
  obtain ⟨clock', hsecond⟩ := moment_of_read (List.mem_of_getElem? hy) read hread
  by_contra hread
  rw [if_neg hread] at hfirst hsecond
  rw [hfirst] at hsecond
  cases hsecond

end Soundness

section Guards

/-- A function of the instructions in the list, the first block being the entry. -/
def Function.ofLists (insts : List Inst) (bodies : List (List InstId)) (terms : List Term)
    (hnodup : ∀ body ∈ bodies, body.Nodup) : Function where
  entry := 0
  body block := bodies.getD block []
  term block := terms.getD block .ret
  inst i := insts.getD i (.compute 0 [])
  users a := (List.range insts.length).filter
    (fun i => decide (.inst a ∈ (insts.getD i (.compute 0 [])).operands))
  mem_users a i := by
    rw [List.mem_filter, List.mem_range, decide_eq_true_eq, and_iff_right_iff_imp]
    intro hmem
    by_contra hi
    rw [List.getD_eq_default _ _ (Nat.le_of_not_lt hi)] at hmem
    exact absurd hmem List.not_mem_nil
  nodup_body block := by
    by_cases hblock : block < bodies.length
    · rw [List.getD_eq_getElem _ _ hblock]
      exact hnodup _ (List.getElem_mem hblock)
    · rw [List.getD_eq_default _ _ (Nat.le_of_not_lt hblock)]
      exact List.nodup_nil

/-- A variable is set to the first argument, then the work-items with an identifier other
than 0 execute the given instruction, and then the variable is read. -/
def guarded (inst : Inst) : Function :=
  .ofLists
    [.alloca, .store (.argument 0) (.inst 0), .load (.global "_local_id_x"), inst,
      .load (.inst 0)]
    [[0, 1, 2], [3], [4]] [.condBr (.inst 2) 1 2, .br 2, .ret] (by decide)

/-- The guarded instruction sets the variable to the second argument. -/
def guardedStore : Function :=
  guarded (.store (.argument 1) (.inst 0))

/-- The guarded instruction writes to memory. -/
def guardedWrite : Function :=
  guarded (.store (.argument 1) (.argument 2))

/-- The arguments are their indices. -/
def indexGroup : WorkGroup ℕ where
  argument index := index
  constantInt value := value.toNat
  globalAddress _ := 0
  other _ := 0
  groupVariable _ := 0
  allocaAddress _ := 0
  undefined := 0
  compute _ _ := 0
  isTrue value := value != 0
  equals value z := (value : ℤ) == z

/-- A work-item that reads its identifier. -/
def identifiedItem (localId : ℕ) : WorkItem ℕ where
  outside _ _ _ := localId

section Ways

variable {V : Type*} {group : WorkGroup V} {item : WorkItem V} {x : V}

theorem guardedWrite_last {n : ℕ} {registers : Registers V}
    (hx : x ∈ executions guardedWrite group item 4 n ⟨2, registers⟩) :
    x = registers.slots 0 := by
  cases n with
  | zero => cases hx
  | succ n => exact List.mem_singleton.mp hx

theorem guardedWrite_guarded {n : ℕ} {registers : Registers V}
    (hx : x ∈ executions guardedWrite group item 4 n ⟨1, registers⟩) :
    x = registers.slots 0 := by
  cases n with
  | zero => cases hx
  | succ n => exact guardedWrite_last hx

/-- The variable holds the first argument on both ways. -/
theorem guardedWrite_executions {n : ℕ}
    (hx : x ∈ executions guardedWrite group item 4 n (State.initial guardedWrite group)) :
    x = group.argument 0 := by
  cases n with
  | zero => cases hx
  | succ n =>
      let registers := executeBlock guardedWrite group item (State.initial guardedWrite group)
      have hnext : x ∈ executions guardedWrite group item 4 n
          ⟨if group.isTrue (group.value registers (.inst 2)) then 1 else 2, registers⟩ := hx
      split at hnext
      · exact guardedWrite_guarded hnext
      · exact guardedWrite_last hnext

end Ways

end Guards

end Pocl.VariableUniformity
