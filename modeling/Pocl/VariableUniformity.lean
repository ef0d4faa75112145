import Pocl.LlvmFunctions

/-!
# The uniformity analysis of values

A value is taken to be uniform if its operands are.  An alloca is assumed to be uniform
while the values stored to it are analysed; if one of them is not uniform, the cache is
put back.  Neither the blocks of the stores are looked at, nor whether the alloca is the
pointer or the value of a store.

Functions have no PHI nodes here.  Terminators have no value, and their operands are
conditions and blocks; the results for blocks are kept apart from those for values.
-/

namespace Pocl.VariableUniformity

abbrev InstId := ℕ

inductive Value
  | argument (index : ℕ)
  | constantInt (value : ℤ)
  | global (name : String)
  /-- Functions and constants that are not integers. -/
  | other (id : ℕ)
  | inst (id : InstId)
  deriving DecidableEq

inductive Inst
  | alloca
  | load (pointer : Value)
  | store (value pointer : Value)
  /-- An instruction whose result is computed from its operands alone. -/
  | compute (opcode : ℕ) (operands : List Value)
  /-- A call, or an atomic access to memory. -/
  | access (opcode : ℕ) (operands : List Value)
  deriving DecidableEq

def Inst.operands : Inst → List Value
  | .alloca => []
  | .load pointer => [pointer]
  | .store value pointer => [value, pointer]
  | .compute _ operands => operands
  | .access _ operands => operands

inductive Term
  | ret
  | br (target : BlockId)
  | condBr (condition : Value) (first second : BlockId)
  | switch (condition : Value) (cases : List (ℤ × BlockId)) (default : BlockId)

structure Function where
  entry : BlockId
  body : BlockId → List InstId
  term : BlockId → Term
  inst : InstId → Inst
  /-- The instructions that use an alloca, in the order of its uses. -/
  users : InstId → List InstId
  mem_users : ∀ a i, i ∈ users a ↔ .inst a ∈ (inst i).operands
  nodup_body : ∀ block, (body block).Nodup

/-- The global variables that are the same for all work-items of a group. -/
def groupVariables : List String :=
  ["_group_id_x", "_group_id_y", "_group_id_z", "_work_dim",
    "_num_groups_x", "_num_groups_y", "_num_groups_z",
    "_global_offset_x", "_global_offset_y", "_global_offset_z",
    "_local_size_x", "_local_size_y", "_local_size_z"]

def Value.isGroupVariable : Value → Bool
  | .global name => decide (name ∈ groupVariables)
  | _ => false

abbrev Cache := Value → Option Bool

def setUniform (cache : Cache) (value : Value) (uniform : Bool) : Cache :=
  Function.update cache value (some uniform)

/-- The results of the values in turn, up to one that is not uniform. -/
def scan (query : Value → Cache → Option (Bool × Cache)) :
    List Value → Cache → Option (Bool × Cache)
  | [], cache => some (true, cache)
  | value :: values, cache =>
      match query value cache with
      | none => none
      | some (false, cache) => some (false, cache)
      | some (true, cache) => scan query values cache

/-- The users of an alloca in turn, up to one that is neither a load nor a store of a
uniform value. -/
def scanUsers (query : Value → Cache → Option (Bool × Cache)) (f : Function) :
    List InstId → Cache → Option (Bool × Cache)
  | [], cache => some (true, cache)
  | user :: users, cache =>
      match f.inst user with
      | .store value _ =>
          match query value cache with
          | none => none
          | some (false, cache) => some (false, cache)
          | some (true, cache) => scanUsers query f users cache
      | .load _ => scanUsers query f users cache
      | _ => some (false, cache)

/-- The result of an instruction that is not an alloca. -/
def scanOperands (query : Value → Cache → Option (Bool × Cache)) (f : Function)
    (i : InstId) (cache : Cache) : Option (Bool × Cache) :=
  (scan query (f.inst i).operands cache).map
    (fun result => (result.1, setUniform result.2 (.inst i) result.1))

/-- `isUniform`, with a bound on the depth of the recursion. -/
def isUniform (f : Function) : ℕ → Value → Cache → Option (Bool × Cache)
  | 0, _, _ => none
  | fuel + 1, value, cache =>
      match cache value with
      | some uniform => some (uniform, cache)
      | none =>
          match value with
          | .argument _ => some (true, setUniform cache value true)
          | .constantInt _ => some (true, setUniform cache value true)
          | .global _ => some (false, setUniform cache value false)
          | .other _ => some (false, setUniform cache value false)
          | .inst i =>
              match f.inst i with
              | .alloca =>
                  match scanUsers (isUniform f fuel) f (f.users i)
                      (setUniform cache value true) with
                  | none => none
                  | some (true, checked) => some (true, setUniform checked value true)
                  | some (false, _) => some (false, setUniform cache value false)
              | .load pointer =>
                  if pointer.isGroupVariable then some (true, setUniform cache value true)
                  else scanOperands (isUniform f fuel) f i cache
              | _ => scanOperands (isUniform f fuel) f i cache

/-- The cache after a sequence of queries. -/
def queries (f : Function) (fuel : ℕ) : List Value → Cache → Option Cache
  | [], cache => some cache
  | value :: values, cache =>
      match isUniform f fuel value cache with
      | none => none
      | some (_, cache) => queries f fuel values cache

section Justification

variable {f : Function} {cache next : Cache} {pending : Set InstId}

/-- The positive results of a cache are those of another one, too. -/
def Keeps (cache next : Cache) : Prop :=
  ∀ value, cache value = some true → next value = some true

theorem Keeps.refl (cache : Cache) : Keeps cache cache :=
  fun _ hvalue => hvalue

theorem Keeps.trans {last : Cache} (hfirst : Keeps cache next) (hsecond : Keeps next last) :
    Keeps cache last :=
  fun value hvalue => hsecond value (hfirst value hvalue)

theorem setUniform_self (value : Value) (uniform : Bool) :
    setUniform cache value uniform value = some uniform :=
  Function.update_self ..

theorem setUniform_of_ne {value other : Value} {uniform : Bool} (hother : other ≠ value) :
    setUniform cache value uniform other = cache other :=
  Function.update_of_ne hother ..

theorem keeps_setUniform_true (cache : Cache) (value : Value) :
    Keeps cache (setUniform cache value true) := by
  intro other hother
  by_cases hvalue : other = value
  · rw [hvalue, setUniform_self]
  · rwa [setUniform_of_ne hvalue]

theorem keeps_setUniform_false {value : Value} (hvalue : cache value ≠ some true) :
    Keeps cache (setUniform cache value false) := by
  intro other hother
  have hne : other ≠ value := fun heq => hvalue (heq ▸ hother)
  rwa [setUniform_of_ne hne]

/-- The user of an alloca is one that the analysis accepts. -/
def Accepted (f : Function) (cache : Cache) (user : InstId) : Prop :=
  (∃ pointer, f.inst user = .load pointer) ∨
    ∃ value pointer, f.inst user = .store value pointer ∧ cache value = some true

/-- The result for an instruction follows from those for others. -/
def InstJustified (f : Function) (cache : Cache) (i : InstId) : Prop :=
  match f.inst i with
  | .alloca => ∀ user ∈ f.users i, Accepted f cache user
  | .load pointer => pointer.isGroupVariable = true ∨ cache pointer = some true
  | inst => ∀ operand ∈ inst.operands, cache operand = some true

/-- Each positive result is one for an argument, an integer or an instruction; in the last
case it is an assumption, or follows from other results. -/
def Justified (f : Function) (pending : Set InstId) (cache : Cache) : Prop :=
  ∀ value, cache value = some true →
    match value with
    | .argument _ => True
    | .constantInt _ => True
    | .inst i => i ∈ pending ∨ InstJustified f cache i
    | _ => False

theorem InstJustified.mono {i : InstId} (hjustified : InstJustified f cache i)
    (hkeeps : Keeps cache next) : InstJustified f next i := by
  unfold InstJustified at hjustified ⊢
  cases hinst : f.inst i with
  | alloca =>
      rw [hinst] at hjustified
      intro user huser
      obtain hload | ⟨value, pointer, hstore, hvalue⟩ := hjustified user huser
      · exact Or.inl hload
      · exact Or.inr ⟨value, pointer, hstore, hkeeps _ hvalue⟩
  | load pointer =>
      rw [hinst] at hjustified
      exact hjustified.imp_right (hkeeps _)
  | store value pointer =>
      rw [hinst] at hjustified
      exact fun operand hoperand => hkeeps _ (hjustified operand hoperand)
  | compute opcode operands =>
      rw [hinst] at hjustified
      exact fun operand hoperand => hkeeps _ (hjustified operand hoperand)
  | access opcode operands =>
      rw [hinst] at hjustified
      exact fun operand hoperand => hkeeps _ (hjustified operand hoperand)

theorem Justified.inst {i : InstId} (hjustified : Justified f pending cache)
    (hvalue : cache (.inst i) = some true) : i ∈ pending ∨ InstJustified f cache i :=
  hjustified (.inst i) hvalue

/-- A negative result can be set if the result has not been positive. -/
theorem Justified.setUniform_false {value : Value} (hjustified : Justified f pending cache)
    (hvalue : cache value ≠ some true) :
    Justified f pending (setUniform cache value false) := by
  intro other hother
  have hold : cache other = some true := by
    by_cases heq : other = value
    · rw [heq, setUniform_self] at hother
      cases hother
    · rwa [setUniform_of_ne heq] at hother
  have hreason := hjustified other hold
  cases other with
  | inst i => exact hreason.imp_right (·.mono (keeps_setUniform_false hvalue))
  | argument index => trivial
  | constantInt value => trivial
  | global name => exact hreason
  | other id => exact hreason

theorem Justified.setUniform_leaf {value : Value} (hjustified : Justified f pending cache)
    (hleaf : (∃ index, value = .argument index) ∨ ∃ z, value = .constantInt z) :
    Justified f pending (setUniform cache value true) := by
  intro other hother
  by_cases heq : other = value
  · obtain ⟨index, hvalue⟩ | ⟨z, hvalue⟩ := hleaf
    · rw [heq, hvalue]
      trivial
    · rw [heq, hvalue]
      trivial
  · rw [setUniform_of_ne heq] at hother
    have hreason := hjustified other hother
    cases other with
    | inst i => exact hreason.imp_right (·.mono (keeps_setUniform_true cache value))
    | argument index => trivial
    | constantInt value => trivial
    | global name => exact hreason
    | other id => exact hreason

/-- A positive result for an instruction, with its reason. -/
theorem Justified.setUniform_inst {i : InstId} {assumed : Set InstId}
    (hjustified : Justified f assumed cache)
    (hreason : InstJustified f cache i ∨ i ∈ pending)
    (hassumed : ∀ j ∈ assumed, j ∈ pending ∨ j = i) :
    Justified f pending (setUniform cache (.inst i) true) := by
  intro other hother
  have hkeeps := keeps_setUniform_true cache (.inst i)
  have hself : i ∈ pending ∨ InstJustified f (setUniform cache (.inst i) true) i :=
    hreason.symm.imp_right (·.mono hkeeps)
  by_cases heq : other = .inst i
  · rw [heq]
    exact hself
  · rw [setUniform_of_ne heq] at hother
    have hold := hjustified other hother
    cases other with
    | inst j =>
        obtain hmem | hinst := hold
        · obtain hpending | rfl := hassumed j hmem
          · exact Or.inl hpending
          · exact hself
        · exact Or.inr (hinst.mono hkeeps)
    | argument index => trivial
    | constantInt value => trivial
    | global name => exact hold
    | other id => exact hold

/-- What a query does to the cache. -/
def QuerySpec (f : Function) (query : Value → Cache → Option (Bool × Cache)) : Prop :=
  ∀ (pending : Set InstId) (value : Value) (cache next : Cache) (uniform : Bool),
    (∀ i ∈ pending, f.inst i = .alloca) → Justified f pending cache →
    query value cache = some (uniform, next) →
    Justified f pending next ∧ Keeps cache next ∧ next value = some uniform

variable {query : Value → Cache → Option (Bool × Cache)}

theorem QuerySpec.scan (hquery : QuerySpec f query)
    (hpending : ∀ i ∈ pending, f.inst i = .alloca) {uniform : Bool} (values : List Value)
    (cache : Cache) (hjustified : Justified f pending cache)
    (hscan : scan query values cache = some (uniform, next)) :
    Justified f pending next ∧ Keeps cache next ∧
      if uniform then ∀ value ∈ values, next value = some true
      else ∃ value ∈ values, next value = some false := by
  induction values generalizing cache with
  | nil =>
      cases hscan
      exact ⟨hjustified, Keeps.refl _, by simp⟩
  | cons value values ih =>
      unfold VariableUniformity.scan at hscan
      split at hscan
      · cases hscan
      next middle hvalue =>
        cases hscan
        obtain ⟨hnext, hkeeps, hresult⟩ :=
          hquery pending value cache _ false hpending hjustified hvalue
        exact ⟨hnext, hkeeps, value, List.mem_cons_self, hresult⟩
      next middle hvalue =>
        obtain ⟨hmiddle, hkeeps, hresult⟩ :=
          hquery pending value cache _ true hpending hjustified hvalue
        obtain ⟨hnext, hkeeps', hrest⟩ := ih middle hmiddle hscan
        refine ⟨hnext, hkeeps.trans hkeeps', ?_⟩
        cases uniform with
        | true =>
            rw [if_pos rfl] at hrest ⊢
            exact List.forall_mem_cons.mpr ⟨hkeeps' value hresult, hrest⟩
        | false =>
            obtain ⟨other, hother, hfalse⟩ := hrest
            exact ⟨other, List.mem_cons_of_mem _ hother, hfalse⟩

theorem QuerySpec.scanUsers (hquery : QuerySpec f query)
    (hpending : ∀ i ∈ pending, f.inst i = .alloca) {uniform : Bool} (users : List InstId)
    (cache : Cache) (hjustified : Justified f pending cache)
    (hscan : scanUsers query f users cache = some (uniform, next)) :
    Justified f pending next ∧ Keeps cache next ∧
      (uniform = true → ∀ user ∈ users, Accepted f next user) := by
  induction users generalizing cache with
  | nil =>
      cases hscan
      exact ⟨hjustified, Keeps.refl _, by simp⟩
  | cons user users ih =>
      unfold VariableUniformity.scanUsers at hscan
      split at hscan
      next value pointer hstore =>
        split at hscan
        · cases hscan
        next middle hvalue =>
          cases hscan
          obtain ⟨hnext, hkeeps, _⟩ :=
            hquery pending value cache _ false hpending hjustified hvalue
          exact ⟨hnext, hkeeps, fun htrue => nomatch htrue⟩
        next middle hvalue =>
          obtain ⟨hmiddle, hkeeps, hresult⟩ :=
            hquery pending value cache _ true hpending hjustified hvalue
          obtain ⟨hnext, hkeeps', hrest⟩ := ih middle hmiddle hscan
          refine ⟨hnext, hkeeps.trans hkeeps', fun htrue => ?_⟩
          exact List.forall_mem_cons.mpr
            ⟨Or.inr ⟨value, pointer, hstore, hkeeps' value hresult⟩, hrest htrue⟩
      next pointer hload =>
        obtain ⟨hnext, hkeeps, hrest⟩ := ih cache hjustified hscan
        exact ⟨hnext, hkeeps, fun htrue =>
          List.forall_mem_cons.mpr ⟨Or.inl ⟨pointer, hload⟩, hrest htrue⟩⟩
      · cases hscan
        exact ⟨hjustified, Keeps.refl _, fun htrue => nomatch htrue⟩

theorem QuerySpec.scanOperands (hquery : QuerySpec f query)
    (hpending : ∀ i ∈ pending, f.inst i = .alloca) {uniform : Bool} {i : InstId}
    (hjustified : Justified f pending cache)
    (hinst : ∀ cache, InstJustified f cache i ↔
      ∀ operand ∈ (f.inst i).operands, cache operand = some true)
    (halloca : f.inst i ≠ .alloca)
    (hscan : scanOperands query f i cache = some (uniform, next)) :
    Justified f pending next ∧ Keeps cache next ∧ next (.inst i) = some uniform := by
  unfold VariableUniformity.scanOperands at hscan
  obtain ⟨⟨result, middle⟩, hmiddle, hresult⟩ := Option.map_eq_some_iff.mp hscan
  cases hresult
  obtain ⟨hscanned, hkeeps, hoperands⟩ :=
    hquery.scan hpending _ cache hjustified hmiddle
  cases result with
  | true =>
      refine ⟨hscanned.setUniform_inst (Or.inl ((hinst middle).mpr hoperands))
        (fun _ hmem => Or.inl hmem), hkeeps.trans (keeps_setUniform_true _ _),
        setUniform_self _ _⟩
  | false =>
      -- The instruction cannot have got a positive result meanwhile.
      obtain ⟨operand, hoperand, hfalse⟩ := hoperands
      have hnot : middle (.inst i) ≠ some true := by
        intro htrue
        obtain hmem | hreason := hscanned.inst htrue
        · exact halloca (hpending i hmem)
        · rw [(hinst middle).mp hreason operand hoperand] at hfalse
          cases hfalse
      exact ⟨hscanned.setUniform_false hnot, hkeeps.trans (keeps_setUniform_false hnot),
        setUniform_self _ _⟩

/-- An alloca is assumed to be uniform while its users are looked at. -/
theorem QuerySpec.alloca (hquery : QuerySpec f query)
    (hpending : ∀ i ∈ pending, f.inst i = .alloca) {uniform : Bool} {i : InstId}
    {checked : Cache} (hjustified : Justified f pending cache)
    (halloca : f.inst i = .alloca)
    (hscan : VariableUniformity.scanUsers query f (f.users i)
      (setUniform cache (.inst i) true) = some (uniform, checked)) :
    Justified f (insert i pending) checked ∧ Keeps cache checked ∧
      (uniform = true → InstJustified f checked i) := by
  have hassumed : Justified f (insert i pending) (setUniform cache (.inst i) true) :=
    hjustified.setUniform_inst (Or.inr (Set.mem_insert i pending))
      fun j hj => Or.inl (Set.mem_insert_of_mem i hj)
  have hpending' : ∀ j ∈ insert i pending, f.inst j = .alloca := by
    intro j hj
    obtain rfl | hmem := Set.mem_insert_iff.mp hj
    · exact halloca
    · exact hpending j hmem
  obtain ⟨hchecked, hkeeps, husers⟩ := hquery.scanUsers hpending' _ _ hassumed hscan
  refine ⟨hchecked, (keeps_setUniform_true _ _).trans hkeeps, fun htrue => ?_⟩
  unfold InstJustified
  rw [halloca]
  exact husers htrue

theorem instJustified_iff {i : InstId} (halloca : f.inst i ≠ .alloca)
    (hgroup : ∀ pointer, f.inst i = .load pointer → pointer.isGroupVariable = false)
    (cache : Cache) :
    InstJustified f cache i ↔
      ∀ operand ∈ (f.inst i).operands, cache operand = some true := by
  unfold InstJustified
  cases hinst : f.inst i with
  | alloca => exact absurd hinst halloca
  | load pointer => simp [hgroup pointer hinst, Inst.operands]
  | store value pointer => exact Iff.rfl
  | compute opcode operands => exact Iff.rfl
  | access opcode operands => exact Iff.rfl

theorem isUniform_spec (f : Function) (fuel : ℕ) : QuerySpec f (isUniform f fuel) := by
  induction fuel with
  | zero =>
      intro pending value cache next uniform _ _ hquery
      cases hquery
  | succ fuel ih =>
      intro pending value cache next uniform hpending hjustified hquery
      unfold isUniform at hquery
      split at hquery
      next result hcached =>
        cases hquery
        exact ⟨hjustified, Keeps.refl _, hcached⟩
      next hnew =>
        have hnot : cache value ≠ some true := by
          rw [hnew]
          exact nofun
        cases value with
        | argument index =>
            cases hquery
            exact ⟨hjustified.setUniform_leaf (Or.inl ⟨index, rfl⟩),
              keeps_setUniform_true _ _, setUniform_self _ _⟩
        | constantInt z =>
            cases hquery
            exact ⟨hjustified.setUniform_leaf (Or.inr ⟨z, rfl⟩),
              keeps_setUniform_true _ _, setUniform_self _ _⟩
        | global name =>
            cases hquery
            exact ⟨hjustified.setUniform_false hnot, keeps_setUniform_false hnot,
              setUniform_self _ _⟩
        | other id =>
            cases hquery
            exact ⟨hjustified.setUniform_false hnot, keeps_setUniform_false hnot,
              setUniform_self _ _⟩
        | inst i =>
            dsimp only at hquery
            split at hquery
            next halloca =>
              split at hquery
              · cases hquery
              next checked hscan =>
                cases hquery
                obtain ⟨hchecked, hkeeps, hreason⟩ :=
                  ih.alloca hpending hjustified halloca hscan
                refine ⟨hchecked.setUniform_inst (Or.inl (hreason rfl)) ?_,
                  hkeeps.trans (keeps_setUniform_true _ _), setUniform_self _ _⟩
                exact fun j hj => (Set.mem_insert_iff.mp hj).symm
              next checked hscan =>
                cases hquery
                exact ⟨hjustified.setUniform_false hnot, keeps_setUniform_false hnot,
                  setUniform_self _ _⟩
            next pointer hload =>
              have halloca : f.inst i ≠ .alloca := by
                rw [hload]
                exact nofun
              split at hquery
              next hgroup =>
                cases hquery
                refine ⟨hjustified.setUniform_inst (Or.inl ?_) (fun _ hmem => Or.inl hmem),
                  keeps_setUniform_true _ _, setUniform_self _ _⟩
                unfold InstJustified
                rw [hload]
                exact Or.inl hgroup
              next hgroup =>
                refine ih.scanOperands hpending hjustified
                  (instJustified_iff halloca ?_) halloca hquery
                intro other hother
                rw [hload, Inst.load.injEq] at hother
                rw [← hother]
                exact Bool.not_eq_true _ ▸ hgroup
            next halloca hload =>
              refine ih.scanOperands hpending hjustified
                (instJustified_iff halloca ?_) halloca hquery
              exact fun pointer hother => absurd hother (hload pointer)

theorem justified_empty (f : Function) : Justified f ∅ (fun _ => none) :=
  fun _ hvalue => nomatch hvalue

theorem queries_justified {fuel : ℕ} (values : List Value) (cache : Cache)
    (hjustified : Justified f ∅ cache) (hqueries : queries f fuel values cache = some next) :
    Justified f ∅ next := by
  induction values generalizing cache with
  | nil =>
      cases hqueries
      exact hjustified
  | cons value values ih =>
      unfold queries at hqueries
      split at hqueries
      · cases hqueries
      next uniform middle hvalue =>
        obtain ⟨hmiddle, _⟩ := isUniform_spec f fuel ∅ value cache middle uniform
          (fun _ hmem => hmem.elim) hjustified hvalue
        exact ih middle hmiddle hqueries

end Justification

end Pocl.VariableUniformity
