import Pocl.BarrierTailReplication

/-!
# The clean-up of the PHI nodes

After the tails are replicated, `CleanupPHIs` goes through the PHI nodes at the
start of a block and removes the entries of blocks that do not branch to it.  A
node that loses its last entry is deleted and its uses become undefined; the loop
then starts again with the first node.

After a removal the index is set to 0 and incremented by the `continue`, so that
the entry that moves to the front is not looked at.
-/

namespace Pocl

section Uses

variable (replace : ValueId → ValueId)

def InstrKind.mapUses : InstrKind → InstrKind
  | .barrier => .barrier
  | .phi incoming => .phi (incoming.map fun entry => (replace entry.1, entry.2))
  | .other opcode operands => .other opcode (operands.map replace)

def Block.mapUses (block : Block) : Block where
  instrs := block.instrs.map fun instr =>
    { instr with kind := instr.kind.mapUses replace }
  term := { block.term with operands := block.term.operands.map replace }

def Func.mapUses (func : Func) : Func :=
  { func with body := fun block => (func.body block).mapUses replace }

end Uses

/-- `Value::replaceAllUsesWith`. -/
def Func.replaceAllUsesWith (func : Func) (value new : ValueId) : Func :=
  func.mapUses fun operand => if operand = value then new else operand

/-- Replace the instruction at an index of a block, or erase it. -/
def Func.setInstr (func : Func) (block : BlockId) (index : ℕ) (instr : Instr) :
    Func :=
  func.setBody block
    { func.body block with instrs := (func.body block).instrs.set index instr }

def Func.eraseInstr (func : Func) (block : BlockId) (index : ℕ) : Func :=
  func.setBody block
    { func.body block with instrs := (func.body block).instrs.eraseIdx index }

namespace BarrierTailReplication

abbrev Incoming := List (ValueId × BlockId)

/-- The loop over the entries of a PHI node from the index `i` on, with the flag
`changed`.  There is no list if the last entry was removed. -/
def cleanupEntries (isPredecessor : BlockId → Bool) (i : ℕ) (incoming : Incoming)
    (changed : Bool) : Bool × Option Incoming :=
  if h : i < incoming.length then
    if isPredecessor (incoming.get ⟨i, h⟩).2 then
      cleanupEntries isPredecessor (i + 1) incoming changed
    else if (incoming.eraseIdx i).length = 0 then
      (true, none)
    else
      -- The index is 0 and then incremented.
      cleanupEntries isPredecessor 1 (incoming.eraseIdx i) true
  else
    (changed, some incoming)
termination_by (incoming.length, incoming.length - i)
decreasing_by
  · exact Prod.Lex.right _ (by omega)
  · exact Prod.Lex.left _ _ (by rw [List.length_eraseIdx_of_lt h]; omega)

/-- The loop over the instructions of the block from the index `position` on.
`undefOf value` is the undefined value of the type of `value`. -/
def cleanupPHIsFrom (undefOf : ValueId → ValueId) (block : BlockId) (func : Func)
    (position : ℕ) (changed : Bool) : Func × Bool :=
  if h : position < (func.body block).instrs.length then
    match (func.body block).instrs.get ⟨position, h⟩ with
    | ⟨id, .phi incoming⟩ =>
        match cleanupEntries (fun pred => block ∈ func.succs pred) 0 incoming
            changed with
        | (changed, some kept) =>
            cleanupPHIsFrom undefOf block
              (func.setInstr block position ⟨id, .phi kept⟩) (position + 1) changed
        | (changed, none) =>
            cleanupPHIsFrom undefOf block
              ((func.replaceAllUsesWith id (undefOf id)).eraseInstr block position)
              0 changed
    | _ => (func, changed)
  else
    (func, changed)
termination_by
  ((func.body block).instrs.length, (func.body block).instrs.length - position)
decreasing_by
  · simp only [Func.setInstr, Func.setBody_self, List.length_set]
    exact Prod.Lex.right _ (by omega)
  · refine Prod.Lex.left _ _ ?_
    simp only [Func.eraseInstr, Func.setBody_self, Func.replaceAllUsesWith,
      Func.mapUses, Block.mapUses]
    rw [List.length_eraseIdx_of_lt (by simpa using h), List.length_map]
    omega

def cleanupPHIs (undefOf : ValueId → ValueId) (func : Func) (block : BlockId) :
    Func × Bool :=
  cleanupPHIsFrom undefOf block func 0 false

structure PhiNode where
  id : ValueId
  incoming : Incoming
  deriving DecidableEq

/-- The PHI nodes a block starts with. -/
def phiNodes : List Instr → List PhiNode
  | [] => []
  | instr :: rest =>
      match instr.kind with
      | .phi incoming => ⟨instr.id, incoming⟩ :: phiNodes rest
      | _ => []

def PhiNode.mapValues (replace : ValueId → ValueId) (phi : PhiNode) : PhiNode :=
  { phi with incoming := phi.incoming.map fun entry => (replace entry.1, entry.2) }

section Specification

variable (isPredecessor : BlockId → Bool)

def PhiNode.valid (phi : PhiNode) : PhiNode :=
  { phi with incoming := phi.incoming.filter fun entry => isPredecessor entry.2 }

/-- The nodes that have a valid entry, with their valid entries. -/
def survivors (phis : List PhiNode) : List PhiNode :=
  (phis.map (PhiNode.valid isPredecessor)).filter fun phi => phi.incoming ≠ []

/-- The nodes that have none. -/
def removedIds (phis : List PhiNode) : List ValueId :=
  ((phis.map (PhiNode.valid isPredecessor)).filter fun phi => phi.incoming = []).map
    PhiNode.id

end Specification

/-- Every entry that is left comes from a predecessor, no node is left without
entries, and the valid entries are kept in order.  A value that was a deleted node
is undefined. -/
structure CleanedUp (undefOf : ValueId → ValueId) (func : Func) (block : BlockId)
    (result : Func) : Prop where
  from_predecessor : ∀ phi ∈ phiNodes (result.body block).instrs,
    ∀ entry ∈ phi.incoming, block ∈ result.succs entry.2
  nonempty : ∀ phi ∈ phiNodes (result.body block).instrs, phi.incoming ≠ []
  kept : phiNodes (result.body block).instrs =
    (survivors (fun pred => block ∈ func.succs pred)
        (phiNodes (func.body block).instrs)).map
      (PhiNode.mapValues fun value =>
        if value ∈ removedIds (fun pred => block ∈ func.succs pred)
            (phiNodes (func.body block).instrs) then
          undefOf value
        else
          value)

section Entries

variable {isPredecessor : BlockId → Bool} {incoming : Incoming}

/-- What the loop over the entries does: the first entry that stays is not looked
at if the one before it was removed. -/
def examined (isPredecessor : BlockId → Bool) : Incoming → Option Incoming
  | [] => some []
  | first :: rest =>
      if isPredecessor first.2 then
        some (first :: rest.filter fun entry => isPredecessor entry.2)
      else
        match rest with
        | [] => none
        | second :: rest =>
            some (second :: rest.filter fun entry => isPredecessor entry.2)

theorem examined_of_valid {first : ValueId × BlockId} {rest : Incoming}
    (hvalid : isPredecessor first.2 = true) :
    examined isPredecessor (first :: rest) =
      some (first :: rest.filter fun entry => isPredecessor entry.2) :=
  if_pos hvalid

theorem examined_of_stale {first : ValueId × BlockId} {rest : Incoming}
    (hstale : ¬isPredecessor first.2 = true) :
    examined isPredecessor (first :: rest) =
      rest.head?.map fun second =>
        second :: rest.tail.filter fun entry => isPredecessor entry.2 := by
  cases rest with
  | nil => exact if_neg hstale
  | cons second rest => exact if_neg hstale

theorem filter_eraseIdx {α : Type} {keep : α → Bool} {list : List α} {i : ℕ}
    (hi : i < list.length) (hdrop : keep (list.get ⟨i, hi⟩) = false) :
    (list.eraseIdx i).filter keep = list.filter keep := by
  have hsplit : list = list.take i ++ list.get ⟨i, hi⟩ :: list.drop (i + 1) := by
    rw [List.get_eq_getElem, List.cons_getElem_drop_succ, List.take_append_drop]
  conv_rhs => rw [hsplit]
  rw [List.eraseIdx_eq_take_drop_succ, List.filter_append, List.filter_append,
    List.filter_cons_of_neg (by simpa using hdrop)]

/-- Behind the first entry, the loop removes all entries that are not valid. -/
theorem cleanupEntries_of_pos {i : ℕ} {changed : Bool} (hi : 1 ≤ i)
    (hseen : ∀ entry ∈ (incoming.take i).tail, isPredecessor entry.2 = true) :
    (cleanupEntries isPredecessor i incoming changed).2 =
      some (incoming.take 1 ++
        incoming.tail.filter fun entry => isPredecessor entry.2) := by
  fun_induction cleanupEntries isPredecessor i incoming changed with
  | case1 i incoming changed h hpred ih =>
      refine ih (by omega) ?_
      rw [List.take_succ_eq_append_getElem h, List.tail_append_of_ne_nil]
      · intro entry hentry
        rcases List.mem_append.mp hentry with hold | hnew
        · exact hseen entry hold
        · rw [List.mem_singleton.mp hnew]
          exact hpred
      · intro hnil
        have hlength := congrArg List.length hnil
        rw [List.length_take, List.length_nil] at hlength
        omega
  | case2 i incoming changed h hpred hempty =>
      rw [List.length_eraseIdx_of_lt h] at hempty
      omega
  | case3 i incoming changed h hpred hempty ih =>
      have hone : ((incoming.eraseIdx i).take 1).tail = [] := by
        cases incoming.eraseIdx i <;> rfl
      rw [ih (le_refl 1) (by simp [hone])]
      obtain ⟨first, rest, rfl⟩ : ∃ first rest, incoming = first :: rest :=
        List.exists_cons_of_length_pos (by omega)
      obtain ⟨k, rfl⟩ : ∃ k, i = k + 1 := ⟨i - 1, by omega⟩
      rw [List.eraseIdx_cons_succ, List.tail_cons, List.tail_cons,
        filter_eraseIdx (by simpa using h) (by simpa using hpred)]
      rfl
  | case4 i incoming changed h =>
      rw [List.take_of_length_le (not_lt.mp h)] at hseen
      rw [List.filter_eq_self.mpr hseen]
      cases incoming with
      | nil => rfl
      | cons first rest => rfl

theorem cleanupEntries_eq_examined (changed : Bool) :
    (cleanupEntries isPredecessor 0 incoming changed).2 =
      examined isPredecessor incoming := by
  cases incoming with
  | nil =>
      rw [cleanupEntries]
      rfl
  | cons first rest =>
      rw [cleanupEntries, dif_pos (by simp)]
      by_cases hpred : isPredecessor first.2 = true
      · rw [if_pos (by simpa using hpred), cleanupEntries_of_pos (by omega) (by simp),
          examined_of_valid hpred]
        rfl
      · rw [if_neg (by simpa using hpred), examined_of_stale hpred]
        cases rest with
        | nil => rfl
        | cons second rest =>
            rw [if_neg (by simp), cleanupEntries_of_pos (le_refl 1) (by simp)]
            rfl

/-- The first two entries are not valid. -/
def StalePair (isPredecessor : BlockId → Bool) (phi : PhiNode) : Prop :=
  ∃ first second rest, phi.incoming = first :: second :: rest ∧
    ¬isPredecessor first.2 = true ∧ ¬isPredecessor second.2 = true

/-- The first entry is not valid. -/
def StaleFirst (isPredecessor : BlockId → Bool) (phi : PhiNode) : Prop :=
  ∃ first rest, phi.incoming = first :: rest ∧ ¬isPredecessor first.2 = true

/-- The only entry is not valid. -/
def StaleOnly (isPredecessor : BlockId → Bool) (phi : PhiNode) : Prop :=
  ∃ entry, phi.incoming = [entry] ∧ ¬isPredecessor entry.2 = true

theorem staleFirst_cons {id : ValueId} {first : ValueId × BlockId}
    {rest : Incoming} :
    StaleFirst isPredecessor ⟨id, first :: rest⟩ ↔
      ¬isPredecessor first.2 = true := by
  constructor
  · rintro ⟨_, _, ⟨⟩, hstale⟩
    exact hstale
  · intro hstale
    exact ⟨first, rest, rfl, hstale⟩

theorem stalePair_cons {id : ValueId} {first : ValueId × BlockId}
    {rest : Incoming} :
    StalePair isPredecessor ⟨id, first :: rest⟩ ↔
      ¬isPredecessor first.2 = true ∧ StaleFirst isPredecessor ⟨id, rest⟩ := by
  constructor
  · rintro ⟨_, second, rest, ⟨⟩, hfirst, hsecond⟩
    exact ⟨hfirst, second, rest, rfl, hsecond⟩
  · rintro ⟨hfirst, second, rest, ⟨⟩, hsecond⟩
    exact ⟨first, second, rest, rfl, hfirst, hsecond⟩

theorem staleOnly_iff {phi : PhiNode} :
    StaleOnly isPredecessor phi ↔ examined isPredecessor phi.incoming = none := by
  unfold StaleOnly
  rcases phi.incoming with _ | ⟨first, _ | ⟨second, rest⟩⟩
  · simp [examined]
  · simp [examined]
  · simp [examined]
    split <;> simp

/-- One round over the entries of a node that stays. -/
structure Examined (isPredecessor : BlockId → Bool) (phi : PhiNode)
    (kept : Incoming) : Prop where
  tail_valid : ∀ entry ∈ kept.tail, isPredecessor entry.2 = true
  valid_eq : PhiNode.valid isPredecessor { phi with incoming := kept } =
    phi.valid isPredecessor
  nonempty_iff : kept = [] ↔ phi.incoming = []
  first_iff : StaleFirst isPredecessor { phi with incoming := kept } ↔
    StalePair isPredecessor phi

theorem examined_spec {phi : PhiNode} {kept : Incoming}
    (hkept : examined isPredecessor phi.incoming = some kept) :
    Examined isPredecessor phi kept := by
  obtain ⟨id, incoming⟩ := phi
  dsimp only at hkept
  cases incoming with
  | nil =>
      cases hkept
      exact ⟨by simp, rfl, Iff.rfl, by simp [StaleFirst, StalePair]⟩
  | cons first rest =>
      by_cases hvalid : isPredecessor first.2 = true
      · rw [examined_of_valid hvalid] at hkept
        cases hkept
        refine ⟨?_, ?_, by simp, ?_⟩
        · intro entry hentry
          exact (List.mem_filter.mp hentry).2
        · simp [PhiNode.valid, hvalid]
        · simp [staleFirst_cons, stalePair_cons, hvalid]
      · rw [examined_of_stale hvalid] at hkept
        obtain ⟨second, hsecond, rfl⟩ := Option.map_eq_some_iff.mp hkept
        obtain ⟨tail, rfl⟩ := List.head?_eq_some_iff.mp hsecond
        refine ⟨?_, ?_, by simp, ?_⟩
        · intro entry hentry
          exact (List.mem_filter.mp hentry).2
        · simp [PhiNode.valid, hvalid, List.filter_cons, List.filter_filter]
        · simp [staleFirst_cons, stalePair_cons, hvalid]

end Entries

section Sweeps

variable {isPredecessor : BlockId → Bool} {phis done todo : List PhiNode}
  {removed : List ValueId}

/-- The loop over the PHI nodes: those before the position, those from it on, and
the deleted ones. -/
def sweep (isPredecessor : BlockId → Bool) (done todo : List PhiNode)
    (removed : List ValueId) : List PhiNode × List ValueId :=
  match todo with
  | [] => (done, removed)
  | phi :: todo =>
      match examined isPredecessor phi.incoming with
      | some kept =>
          sweep isPredecessor (done ++ [{ phi with incoming := kept }]) todo removed
      | none => sweep isPredecessor [] (done ++ todo) (phi.id :: removed)
termination_by (done.length + todo.length, todo.length)
decreasing_by
  · simp only [List.length_append, List.length_cons, List.length_nil]
    rw [show done.length + (0 + 1) + todo.length = done.length + (todo.length + 1) by
      omega]
    exact Prod.Lex.right _ (by omega)
  · exact Prod.Lex.left _ _ (by simp)

/-- Every node has entries, and one that starts with two entries that are not
valid comes before one with a single entry that is not. -/
structure NodesExamined (isPredecessor : BlockId → Bool) (phis : List PhiNode) :
    Prop where
  nonempty : ∀ phi ∈ phis, phi.incoming ≠ []
  rescued : ∀ front phi back, phis = front ++ phi :: back →
    StalePair isPredecessor phi → ∃ last ∈ back, StaleOnly isPredecessor last

/-- What holds before every round if all entries are looked at. -/
structure Sweeping (isPredecessor : BlockId → Bool) (phis done todo : List PhiNode)
    (removed : List ValueId) : Prop where
  nonempty : ∀ phi ∈ done ++ todo, phi.incoming ≠ []
  tail_valid : ∀ phi ∈ done, ∀ entry ∈ phi.incoming.tail,
    isPredecessor entry.2 = true
  done_rescued : ∀ phi ∈ done, StaleFirst isPredecessor phi →
    ∃ last ∈ todo, StaleOnly isPredecessor last
  todo_rescued : ∀ front phi back, todo = front ++ phi :: back →
    StalePair isPredecessor phi → ∃ last ∈ back, StaleOnly isPredecessor last
  survivors_eq : survivors isPredecessor (done ++ todo) =
    survivors isPredecessor phis
  removed_iff : ∀ id,
    id ∈ removed ∨ id ∈ removedIds isPredecessor (done ++ todo) ↔
      id ∈ removedIds isPredecessor phis

theorem NodesExamined.sweeping (hnodes : NodesExamined isPredecessor phis) :
    Sweeping isPredecessor phis [] phis [] where
  nonempty := hnodes.nonempty
  tail_valid := by simp
  done_rescued := by simp
  todo_rescued := hnodes.rescued
  survivors_eq := rfl
  removed_iff := by simp

theorem survivors_append (front back : List PhiNode) :
    survivors isPredecessor (front ++ back) =
      survivors isPredecessor front ++ survivors isPredecessor back := by
  rw [survivors, List.map_append, List.filter_append]
  rfl

theorem removedIds_append (front back : List PhiNode) :
    removedIds isPredecessor (front ++ back) =
      removedIds isPredecessor front ++ removedIds isPredecessor back := by
  rw [removedIds, List.map_append, List.filter_append, List.map_append]
  rfl

theorem Examined.survivors_eq {phi : PhiNode} {kept : Incoming}
    (hexamined : Examined isPredecessor phi kept) :
    survivors isPredecessor [{ phi with incoming := kept }] =
      survivors isPredecessor [phi] := by
  rw [survivors, List.map_singleton, hexamined.valid_eq]
  rfl

theorem Examined.removedIds_eq {phi : PhiNode} {kept : Incoming}
    (hexamined : Examined isPredecessor phi kept) :
    removedIds isPredecessor [{ phi with incoming := kept }] =
      removedIds isPredecessor [phi] := by
  rw [removedIds, List.map_singleton, hexamined.valid_eq]
  rfl

theorem StaleOnly.valid_eq {phi : PhiNode} (honly : StaleOnly isPredecessor phi) :
    phi.valid isPredecessor = { phi with incoming := [] } := by
  obtain ⟨entry, hentry, hstale⟩ := honly
  simp [PhiNode.valid, hentry, hstale]

/-- A node that stays goes to those before the position. -/
theorem Sweeping.advance {phi : PhiNode} {kept : Incoming}
    (hsweeping : Sweeping isPredecessor phis done (phi :: todo) removed)
    (hkept : examined isPredecessor phi.incoming = some kept) :
    Sweeping isPredecessor phis (done ++ [{ phi with incoming := kept }]) todo
      removed := by
  have hexamined := examined_spec hkept
  have hnotOnly : ¬StaleOnly isPredecessor phi := by
    rw [staleOnly_iff, hkept]
    simp
  refine ⟨?_, ?_, ?_, ?_, ?_, ?_⟩
  · intro other hother
    simp only [List.append_assoc, List.mem_append, List.mem_singleton] at hother
    rcases hother with hold | rfl | hnew
    · exact hsweeping.nonempty other (by simp [hold])
    · exact (not_congr hexamined.nonempty_iff).mpr (hsweeping.nonempty phi (by simp))
    · exact hsweeping.nonempty other (by simp [hnew])
  · intro other hother
    rcases List.mem_append.mp hother with hold | hnew
    · exact hsweeping.tail_valid other hold
    · rw [List.mem_singleton.mp hnew]
      exact hexamined.tail_valid
  · intro other hother hstale
    rcases List.mem_append.mp hother with hold | hnew
    · obtain ⟨last, hlast, honly⟩ := hsweeping.done_rescued other hold hstale
      rcases List.mem_cons.mp hlast with rfl | hmem
      · exact (hnotOnly honly).elim
      · exact ⟨last, hmem, honly⟩
    · rw [List.mem_singleton.mp hnew] at hstale
      exact hsweeping.todo_rescued [] phi todo rfl (hexamined.first_iff.mp hstale)
  · intro front other back hsplit
    exact hsweeping.todo_rescued (phi :: front) other back (by rw [hsplit]; rfl)
  · rw [← hsweeping.survivors_eq, List.append_assoc, survivors_append,
      survivors_append, hexamined.survivors_eq, ← survivors_append,
      ← survivors_append]
    rfl
  · intro id
    rw [← hsweeping.removed_iff, List.append_assoc, removedIds_append,
      removedIds_append, hexamined.removedIds_eq, ← removedIds_append,
      ← removedIds_append]
    rfl

/-- A deleted node sends the loop back to the first one. -/
theorem Sweeping.restart {phi : PhiNode}
    (hsweeping : Sweeping isPredecessor phis done (phi :: todo) removed)
    (hnone : examined isPredecessor phi.incoming = none) :
    Sweeping isPredecessor phis [] (done ++ todo) (phi.id :: removed) := by
  have honly : StaleOnly isPredecessor phi := staleOnly_iff.mpr hnone
  refine ⟨?_, by simp, by simp, ?_, ?_, ?_⟩
  · intro other hother
    refine hsweeping.nonempty other ?_
    rw [List.nil_append] at hother
    rcases List.mem_append.mp hother with hold | hnew
    · simp [hold]
    · simp [hnew]
  · intro front other back hsplit hpair
    rcases List.append_eq_append_iff.mp hsplit with ⟨middle, -, htodo⟩ |
      ⟨middle, hdone, hback⟩
    · exact hsweeping.todo_rescued (phi :: middle) other back (by rw [htodo]; rfl)
        hpair
    · cases middle with
      | nil =>
          exact hsweeping.todo_rescued [phi] other back (by rw [hback]; rfl) hpair
      | cons head rest =>
          cases hback
          obtain ⟨first, second, tail, hincoming, -, hstale⟩ := hpair
          have hvalid := hsweeping.tail_valid other (by simp [hdone]) second
            (by simp [hincoming])
          exact (hstale hvalid).elim
  · have hgone : survivors isPredecessor [phi] = [] := by
      simp [survivors, honly.valid_eq]
    rw [← hsweeping.survivors_eq, List.nil_append, survivors_append,
      List.append_cons, survivors_append, survivors_append, hgone, List.append_nil]
  · intro id
    have hgone : removedIds isPredecessor [phi] = [phi.id] := by
      simp [removedIds, honly.valid_eq]
    rw [← hsweeping.removed_iff, List.nil_append, List.append_cons,
      removedIds_append, removedIds_append, removedIds_append, hgone]
    simp only [List.mem_cons, List.mem_append, List.not_mem_nil, or_false]
    tauto

theorem Sweeping.finish (hsweeping : Sweeping isPredecessor phis done [] removed) :
    done = survivors isPredecessor phis ∧
      ∀ id, id ∈ removed ↔ id ∈ removedIds isPredecessor phis := by
  have hnonempty : ∀ phi ∈ done, phi.incoming ≠ [] := fun phi hphi =>
    hsweeping.nonempty phi (by simp [hphi])
  have hvalid : ∀ phi ∈ done, phi.valid isPredecessor = phi := by
    intro phi hphi
    have hentries : ∀ entry ∈ phi.incoming, isPredecessor entry.2 = true := by
      obtain ⟨first, rest, hincoming⟩ := List.exists_cons_of_ne_nil (hnonempty phi hphi)
      rw [hincoming]
      intro entry hentry
      rcases List.mem_cons.mp hentry with rfl | hrest
      · by_contra hstale
        obtain ⟨_, hmem, _⟩ :=
          hsweeping.done_rescued phi hphi ⟨entry, rest, hincoming, hstale⟩
        cases hmem
      · exact hsweeping.tail_valid phi hphi entry (by simp [hincoming, hrest])
    rw [PhiNode.valid, List.filter_eq_self.mpr hentries]
  have hmap : done.map (PhiNode.valid isPredecessor) = done :=
    (List.map_congr_left hvalid).trans (List.map_id' done)
  constructor
  · rw [← hsweeping.survivors_eq, List.append_nil, survivors, hmap]
    symm
    simpa using hnonempty
  · intro id
    rw [← hsweeping.removed_iff, List.append_nil, removedIds, hmap,
      List.filter_eq_nil_iff.mpr (by simpa using hnonempty)]
    simp

theorem Sweeping.sweep (hsweeping : Sweeping isPredecessor phis done todo removed) :
    (sweep isPredecessor done todo removed).1 = survivors isPredecessor phis ∧
      ∀ id, id ∈ (sweep isPredecessor done todo removed).2 ↔
        id ∈ removedIds isPredecessor phis := by
  fun_induction BarrierTailReplication.sweep isPredecessor done todo removed with
  | case1 done removed => exact hsweeping.finish
  | case2 done removed phi todo kept hkept ih => exact ih (hsweeping.advance hkept)
  | case3 done removed phi todo hnone ih => exact ih (hsweeping.restart hnone)

/-- A node that the loop will leave with an entry that is not valid, or without
entries. -/
inductive Missed (isPredecessor : BlockId → Bool) (done todo : List PhiNode) : Prop
  | empty (phi : PhiNode) (hmem : phi ∈ done ++ todo) (hempty : phi.incoming = [])
  | passed (phi : PhiNode) (hmem : phi ∈ done)
      (hstale : StaleFirst isPredecessor phi)
      (hlast : ∀ last ∈ todo, ¬StaleOnly isPredecessor last)
  | ahead (front : List PhiNode) (phi : PhiNode) (back : List PhiNode)
      (hsplit : todo = front ++ phi :: back)
      (hpair : StalePair isPredecessor phi)
      (hlast : ∀ last ∈ back, ¬StaleOnly isPredecessor last)

theorem Missed.advance {phi : PhiNode} {kept : Incoming}
    (hmissed : Missed isPredecessor done (phi :: todo))
    (hkept : examined isPredecessor phi.incoming = some kept) :
    Missed isPredecessor (done ++ [{ phi with incoming := kept }]) todo := by
  have hexamined := examined_spec hkept
  cases hmissed with
  | empty other hmem hempty =>
      rcases List.mem_append.mp hmem with hold | hnew
      · exact .empty other (by simp [hold]) hempty
      · rcases List.mem_cons.mp hnew with rfl | htodo
        · exact .empty { other with incoming := kept } (by simp)
            (hexamined.nonempty_iff.mpr hempty)
        · exact .empty other (by simp [htodo]) hempty
  | passed other hmem hstale hlast =>
      exact .passed other (by simp [hmem]) hstale fun last hmem =>
        hlast last (List.mem_cons_of_mem _ hmem)
  | ahead front other back hsplit hpair hlast =>
      cases front with
      | nil =>
          cases hsplit
          exact .passed { phi with incoming := kept } (by simp)
            (hexamined.first_iff.mpr hpair) hlast
      | cons head front =>
          cases hsplit
          exact .ahead front other back rfl hpair hlast

theorem Missed.restart {phi : PhiNode}
    (hmissed : Missed isPredecessor done (phi :: todo))
    (hnone : examined isPredecessor phi.incoming = none) :
    Missed isPredecessor [] (done ++ todo) := by
  have honly : StaleOnly isPredecessor phi := staleOnly_iff.mpr hnone
  cases hmissed with
  | empty other hmem hempty =>
      have hne : other ≠ phi := by
        rintro rfl
        obtain ⟨entry, hentry, -⟩ := honly
        rw [hempty] at hentry
        cases hentry
      refine .empty other ?_ hempty
      simpa [hne] using hmem
  | passed other hmem hstale hlast => exact (hlast phi (by simp) honly).elim
  | ahead front other back hsplit hpair hlast =>
      cases front with
      | nil =>
          cases hsplit
          obtain ⟨entry, hentry, -⟩ := honly
          obtain ⟨first, second, rest, hincoming, -⟩ := hpair
          rw [hincoming] at hentry
          cases hentry
      | cons head front =>
          cases hsplit
          exact .ahead (done ++ front) other back (by simp) hpair hlast

theorem Missed.sweep (hmissed : Missed isPredecessor done todo) :
    ∃ phi ∈ (sweep isPredecessor done todo removed).1,
      phi.incoming = [] ∨ StaleFirst isPredecessor phi := by
  fun_induction BarrierTailReplication.sweep isPredecessor done todo removed with
  | case1 done removed =>
      cases hmissed with
      | empty phi hmem hempty => exact ⟨phi, by simpa using hmem, .inl hempty⟩
      | passed phi hmem hstale _ => exact ⟨phi, hmem, .inr hstale⟩
      | ahead front phi back hsplit => cases front <;> cases hsplit
  | case2 done removed phi todo kept hkept ih => exact ih (hmissed.advance hkept)
  | case3 done removed phi todo hnone ih => exact ih (hmissed.restart hnone)

theorem missed_of_not_nodesExamined
    (hnot : ¬NodesExamined isPredecessor phis) : Missed isPredecessor [] phis := by
  by_contra hmissed
  refine hnot ⟨?_, ?_⟩
  · intro phi hphi hempty
    exact hmissed (.empty phi hphi hempty)
  · intro front phi back hsplit hpair
    by_contra hlast
    push Not at hlast
    exact hmissed (.ahead front phi back hsplit hpair hlast)

end Sweeps

section Blocks

variable {undefOf : ValueId → ValueId} {func : Func} {block : BlockId}
  {phis : List PhiNode} {rest : List Instr}

def PhiNode.toInstr (phi : PhiNode) : Instr :=
  ⟨phi.id, .phi phi.incoming⟩

/-- A function whose block has the given PHI nodes. -/
def withPhis (func : Func) (block : BlockId) (phis : List PhiNode)
    (rest : List Instr) : Func :=
  func.setBody block
    { func.body block with instrs := phis.map PhiNode.toInstr ++ rest }

/-- The uses of the deleted nodes, the last one deleted first in the list. -/
def undefined (undefOf : ValueId → ValueId) : List ValueId → ValueId → ValueId
  | [], value => value
  | id :: removed, value =>
      if undefined undefOf removed value = id then
        undefOf id
      else
        undefined undefOf removed value

/-- The function in the middle of the loop. -/
def cleaning (undefOf : ValueId → ValueId) (func : Func) (block : BlockId)
    (rest : List Instr) (phis : List PhiNode) (removed : List ValueId) : Func :=
  (withPhis func block phis rest).mapUses (undefined undefOf removed)

@[simp] theorem mapUses_body (replace : ValueId → ValueId) (index : BlockId) :
    (func.mapUses replace).body index =
      (func.body index).mapUses replace :=
  rfl

theorem mapUses_succs (replace : ValueId → ValueId) (pred : BlockId) :
    (func.mapUses replace).succs pred = func.succs pred :=
  rfl

theorem withPhis_succs (pred : BlockId) :
    (withPhis func block phis rest).succs pred = func.succs pred := by
  unfold Func.succs withPhis
  by_cases hpred : pred = block
  · rw [hpred, Func.setBody_self]
  · rw [Func.setBody_of_ne _ _ hpred]

theorem cleaning_succs {removed : List ValueId} (pred : BlockId) :
    (cleaning undefOf func block rest phis removed).succs pred = func.succs pred := by
  rw [cleaning, mapUses_succs, withPhis_succs]

theorem cleaning_instrs {removed : List ValueId} :
    ((cleaning undefOf func block rest phis removed).body block).instrs =
      phis.map (fun phi => (phi.mapValues (undefined undefOf removed)).toInstr) ++
        rest.map fun instr =>
          { instr with
            kind := instr.kind.mapUses (undefined undefOf removed) } := by
  simp only [cleaning, withPhis, Func.mapUses, Func.setBody_self,
    Block.mapUses, List.map_append, List.map_map]
  rfl

/-- No PHI node starts the list. -/
def EndsPhis (rest : List Instr) : Prop :=
  ∀ instr, rest.head? = some instr → instr.kind.isPhi = false

theorem phiNodes_append (hrest : EndsPhis rest) (phis : List PhiNode) :
    phiNodes (phis.map PhiNode.toInstr ++ rest) = phis := by
  induction phis with
  | nil =>
      cases rest with
      | nil => rfl
      | cons instr rest =>
          have hkind := hrest instr rfl
          obtain ⟨id, kind⟩ := instr
          cases kind with
          | phi incoming => cases hkind
          | barrier => rfl
          | other opcode operands => rfl
  | cons phi phis ih =>
      rw [List.map_cons, List.cons_append, phiNodes]
      exact congrArg _ ih

theorem exists_phiNodes (instrs : List Instr) :
    ∃ rest, instrs = (phiNodes instrs).map PhiNode.toInstr ++ rest ∧
      EndsPhis rest := by
  induction instrs with
  | nil => exact ⟨[], rfl, by simp [EndsPhis]⟩
  | cons instr instrs ih =>
      obtain ⟨rest, hsplit, hends⟩ := ih
      obtain ⟨id, kind⟩ := instr
      cases kind with
      | phi incoming =>
          refine ⟨rest, ?_, hends⟩
          rw [phiNodes, List.map_cons, List.cons_append, ← hsplit]
          rfl
      | barrier => exact ⟨_, rfl, by rintro instr ⟨⟩; rfl⟩
      | other opcode operands => exact ⟨_, rfl, by rintro instr ⟨⟩; rfl⟩

theorem examined_map {isPredecessor : BlockId → Bool} (replace : ValueId → ValueId)
    (incoming : Incoming) :
    examined isPredecessor (incoming.map fun entry => (replace entry.1, entry.2)) =
      (examined isPredecessor incoming).map
        (List.map fun entry => (replace entry.1, entry.2)) := by
  have hfilter (rest : Incoming) :
      (rest.map fun entry => (replace entry.1, entry.2)).filter
          (fun entry => isPredecessor entry.2) =
        (rest.filter fun entry => isPredecessor entry.2).map
          fun entry => (replace entry.1, entry.2) := by
    rw [List.filter_map]
    rfl
  rcases incoming with _ | ⟨first, rest⟩
  · rfl
  · by_cases hvalid : isPredecessor first.2 = true
    · have hmapped : isPredecessor (replace first.1, first.2).2 = true := hvalid
      rw [List.map_cons, examined_of_valid hvalid, examined_of_valid hmapped, hfilter]
      rfl
    · have hmapped : ¬isPredecessor (replace first.1, first.2).2 = true := hvalid
      rw [List.map_cons, examined_of_stale hvalid, examined_of_stale hmapped]
      cases rest with
      | nil => rfl
      | cons second rest =>
          simp only [List.map_cons, List.head?_cons, List.tail_cons, hfilter]
          rfl

theorem cleaning_body_self {removed : List ValueId} :
    (cleaning undefOf func block rest phis removed).body block =
      { func.body block with
        instrs := phis.map PhiNode.toInstr ++ rest }.mapUses
          (undefined undefOf removed) := by
  rw [cleaning, withPhis, mapUses_body, Func.setBody_self]

theorem cleaning_body_of_ne {removed : List ValueId} {other : BlockId}
    (hother : other ≠ block) :
    (cleaning undefOf func block rest phis removed).body other =
      (func.body other).mapUses (undefined undefOf removed) := by
  rw [cleaning, withPhis, mapUses_body, Func.setBody_of_ne _ _ hother]

/-- A function is in the middle of the loop if its blocks are. -/
theorem cleaning_eq {removed : List ValueId} {other : Func}
    (hframe : other = { func with body := other.body })
    (hself : other.body block =
      { func.body block with
        instrs := phis.map PhiNode.toInstr ++ rest }.mapUses
          (undefined undefOf removed))
    (hothers : ∀ index, index ≠ block →
      other.body index = (func.body index).mapUses (undefined undefOf removed)) :
    other = cleaning undefOf func block rest phis removed := by
  have hbody : other.body = (cleaning undefOf func block rest phis removed).body := by
    funext index
    by_cases heq : index = block
    · rw [heq, hself, cleaning_body_self]
    · rw [hothers index heq, cleaning_body_of_ne heq]
  rw [hframe, hbody]
  rfl

variable {done todo : List PhiNode} {phi : PhiNode} {removed : List ValueId}

theorem setInstr_cleaning {kept : Incoming} :
    (cleaning undefOf func block rest (done ++ phi :: todo) removed).setInstr block
        done.length
        ⟨phi.id, .phi (kept.map fun entry =>
          (undefined undefOf removed entry.1, entry.2))⟩ =
      cleaning undefOf func block rest
        (done ++ { phi with incoming := kept } :: todo) removed := by
  refine cleaning_eq rfl ?_ ?_
  · rw [Func.setInstr, Func.setBody_self, cleaning_body_self]
    simp [Block.mapUses, PhiNode.toInstr, InstrKind.mapUses]
  · intro index hindex
    rw [Func.setInstr, Func.setBody_of_ne _ _ hindex, cleaning_body_of_ne hindex]

theorem eraseInstr_cleaning :
    (cleaning undefOf func block rest (done ++ phi :: todo) removed).eraseInstr block
        done.length =
      cleaning undefOf func block rest (done ++ todo) removed := by
  refine cleaning_eq rfl ?_ ?_
  · rw [Func.eraseInstr, Func.setBody_self, cleaning_body_self]
    simp [Block.mapUses, List.eraseIdx_append_of_length_le]
  · intro index hindex
    rw [Func.eraseInstr, Func.setBody_of_ne _ _ hindex, cleaning_body_of_ne hindex]

theorem mapUses_mapUses (first second : ValueId → ValueId)
    (content : Block) :
    (content.mapUses first).mapUses second =
      content.mapUses (second ∘ first) := by
  have hkind (kind : InstrKind) :
      (kind.mapUses first).mapUses second =
        kind.mapUses (second ∘ first) := by
    cases kind with
    | barrier => rfl
    | phi incoming => simp [InstrKind.mapUses]
    | other opcode operands => simp [InstrKind.mapUses]
  simp [Block.mapUses, hkind]

theorem replaceAllUsesWith_cleaning {value : ValueId} :
    (cleaning undefOf func block rest phis removed).replaceAllUsesWith value
        (undefOf value) =
      cleaning undefOf func block rest phis (value :: removed) := by
  refine cleaning_eq rfl ?_ ?_
  · rw [Func.replaceAllUsesWith, mapUses_body, cleaning_body_self,
      mapUses_mapUses]
    rfl
  · intro index hindex
    rw [Func.replaceAllUsesWith, mapUses_body, cleaning_body_of_ne hindex,
      mapUses_mapUses]
    rfl

theorem cleanupPHIsFrom_of_end {position : ℕ} {changed : Bool}
    (hend : ∀ instr, (func.body block).instrs[position]? = some instr →
      instr.kind.isPhi = false) :
    cleanupPHIsFrom undefOf block func position changed = (func, changed) := by
  rw [cleanupPHIsFrom]
  split
  next hlt =>
    split
    next id incoming hget =>
      have hphi := hend _ ((List.getElem?_eq_getElem hlt).trans (congrArg some hget))
      cases hphi
    next => rfl
  next => rfl

section Steps

variable {position : ℕ} {id : ValueId} {incoming : Incoming}

theorem cleanupPHIsFrom_of_some {kept : Incoming} (changed : Bool)
    (hphi : (func.body block).instrs[position]? = some ⟨id, .phi incoming⟩)
    (hkept : examined (fun pred => block ∈ func.succs pred) incoming = some kept) :
    ∃ changed',
      cleanupPHIsFrom undefOf block func position changed =
        cleanupPHIsFrom undefOf block
          (func.setInstr block position ⟨id, .phi kept⟩) (position + 1) changed' := by
  obtain ⟨hlt, hget⟩ := List.getElem?_eq_some_iff.mp hphi
  rw [← cleanupEntries_eq_examined changed] at hkept
  rw [cleanupPHIsFrom, dif_pos hlt]
  simp only [List.get_eq_getElem, hget]
  revert hkept
  rcases cleanupEntries (fun pred => block ∈ func.succs pred) 0 incoming changed with
    ⟨changed', result⟩
  rintro ⟨⟩
  exact ⟨changed', rfl⟩

theorem cleanupPHIsFrom_of_none (changed : Bool)
    (hphi : (func.body block).instrs[position]? = some ⟨id, .phi incoming⟩)
    (hnone : examined (fun pred => block ∈ func.succs pred) incoming = none) :
    ∃ changed',
      cleanupPHIsFrom undefOf block func position changed =
        cleanupPHIsFrom undefOf block
          ((func.replaceAllUsesWith id (undefOf id)).eraseInstr block position)
          0 changed' := by
  obtain ⟨hlt, hget⟩ := List.getElem?_eq_some_iff.mp hphi
  rw [← cleanupEntries_eq_examined changed] at hnone
  rw [cleanupPHIsFrom, dif_pos hlt]
  simp only [List.get_eq_getElem, hget]
  revert hnone
  rcases cleanupEntries (fun pred => block ∈ func.succs pred) 0 incoming changed with
    ⟨changed', result⟩
  rintro ⟨⟩
  exact ⟨changed', rfl⟩

end Steps

theorem cleaning_instr :
    ((cleaning undefOf func block rest (done ++ phi :: todo) removed).body
        block).instrs[done.length]? =
      some (phi.mapValues (undefined undefOf removed)).toInstr := by
  rw [cleaning_instrs]
  simp

theorem cleaning_end (hrest : EndsPhis rest) {instr : Instr}
    (hget : ((cleaning undefOf func block rest done removed).body
      block).instrs[done.length]? = some instr) : instr.kind.isPhi = false := by
  rw [cleaning_instrs, List.getElem?_append_right (by simp), List.length_map,
    Nat.sub_self, ← List.head?_eq_getElem?, List.head?_map] at hget
  obtain ⟨old, hold, rfl⟩ := Option.map_eq_some_iff.mp hget
  have hkind := hrest old hold
  revert hkind
  cases old.kind <;> exact id

/-- The loop over the instructions is the loop over the PHI nodes. -/
theorem cleanupPHIsFrom_cleaning (hrest : EndsPhis rest) (changed : Bool) :
    (cleanupPHIsFrom undefOf block
        (cleaning undefOf func block rest (done ++ todo) removed) done.length
        changed).1 =
      cleaning undefOf func block rest
        (sweep (fun pred => block ∈ func.succs pred) done todo removed).1
        (sweep (fun pred => block ∈ func.succs pred) done todo removed).2 := by
  fun_induction sweep (fun pred => block ∈ func.succs pred) done todo removed
    generalizing changed with
  | case1 done removed =>
      rw [List.append_nil, cleanupPHIsFrom_of_end fun _ => cleaning_end hrest]
  | case2 done removed phi todo kept hkept ih =>
      have hexamined : examined (fun pred => block ∈
          (cleaning undefOf func block rest (done ++ phi :: todo) removed).succs pred)
            (phi.mapValues (undefined undefOf removed)).incoming =
          some (kept.map fun entry =>
            (undefined undefOf removed entry.1, entry.2)) := by
        simp only [cleaning_succs, PhiNode.mapValues, examined_map, hkept]
        rfl
      obtain ⟨changed', hstep⟩ :=
        cleanupPHIsFrom_of_some changed cleaning_instr hexamined
      have hnext := ih changed'
      rw [List.append_assoc, List.singleton_append, List.length_append,
        List.length_singleton] at hnext
      rw [hstep, ← hnext]
      exact congrArg (fun next => (cleanupPHIsFrom undefOf block next _ _).1)
        setInstr_cleaning
  | case3 done removed phi todo hnone ih =>
      have hexamined : examined (fun pred => block ∈
          (cleaning undefOf func block rest (done ++ phi :: todo) removed).succs pred)
            (phi.mapValues (undefined undefOf removed)).incoming = none := by
        simp only [cleaning_succs, PhiNode.mapValues, examined_map, hnone]
        rfl
      obtain ⟨changed', hstep⟩ :=
        cleanupPHIsFrom_of_none changed cleaning_instr hexamined
      rw [hstep, ← ih changed', List.nil_append]
      refine congrArg (fun next => (cleanupPHIsFrom undefOf block next _ _).1) ?_
      calc ((cleaning undefOf func block rest (done ++ phi :: todo)
              removed).replaceAllUsesWith phi.id (undefOf phi.id)).eraseInstr block
                done.length
          = (cleaning undefOf func block rest (done ++ phi :: todo)
              (phi.id :: removed)).eraseInstr block done.length :=
            congrArg (Func.eraseInstr · block done.length) replaceAllUsesWith_cleaning
        _ = cleaning undefOf func block rest (done ++ todo) (phi.id :: removed) :=
            eraseInstr_cleaning

theorem cleaning_nil
    (hsplit : (func.body block).instrs = phis.map PhiNode.toInstr ++ rest) :
    cleaning undefOf func block rest phis [] = func := by
  have hid (content : Block) : content.mapUses (undefined undefOf []) = content := by
    have hkind (kind : InstrKind) : kind.mapUses (fun value => value) = kind := by
      cases kind <;> simp [InstrKind.mapUses]
    simp [Block.mapUses, hkind, undefined]
  refine (cleaning_eq rfl ?_ fun index _ => (hid _).symm).symm
  rw [hid, ← hsplit]

theorem cleanupPHIs_eq
    (hsplit : (func.body block).instrs = phis.map PhiNode.toInstr ++ rest)
    (hrest : EndsPhis rest) :
    (cleanupPHIs undefOf func block).1 =
      cleaning undefOf func block rest
        (sweep (fun pred => block ∈ func.succs pred) [] phis []).1
        (sweep (fun pred => block ∈ func.succs pred) [] phis []).2 := by
  rw [← cleanupPHIsFrom_cleaning hrest false, List.nil_append, cleaning_nil hsplit]
  rfl

theorem phiNodes_cleaning (hrest : EndsPhis rest) :
    phiNodes ((cleaning undefOf func block rest phis removed).body block).instrs =
      phis.map (PhiNode.mapValues (undefined undefOf removed)) := by
  have hmapped : EndsPhis (rest.map fun instr =>
      { instr with kind := instr.kind.mapUses (undefined undefOf removed) }) := by
    intro instr hhead
    rw [List.head?_map] at hhead
    obtain ⟨old, hold, rfl⟩ := Option.map_eq_some_iff.mp hhead
    have hkind := hrest old hold
    revert hkind
    cases old.kind <;> exact id
  have hnodes := phiNodes_append hmapped
    (phis.map (PhiNode.mapValues (undefined undefOf removed)))
  rw [List.map_map] at hnodes
  rw [cleaning_instrs]
  exact hnodes

theorem undefined_eq (hundef : ∀ value, ∀ id ∈ removed, undefOf value ≠ id)
    (value : ValueId) :
    undefined undefOf removed value =
      if value ∈ removed then undefOf value else value := by
  induction removed with
  | nil => simp [undefined]
  | cons id removed ih =>
      have hrest := ih fun value other hother =>
        hundef value other (List.mem_cons_of_mem _ hother)
      have hid : undefOf value ≠ id := hundef value id (by simp)
      rw [undefined, hrest]
      by_cases hmem : value ∈ removed
      · simp [hmem, hid]
      · by_cases heq : value = id
        · simp [← heq, hmem]
        · simp [hmem, heq]

theorem not_cleanedUp (hrest : EndsPhis rest) (hphi : phi ∈ phis)
    (hbad : phi.incoming = [] ∨ StaleFirst (fun pred => block ∈ func.succs pred) phi) :
    ¬CleanedUp undefOf func block (cleaning undefOf func block rest phis removed) := by
  intro hcleaned
  have hmem : phi.mapValues (undefined undefOf removed) ∈
      phiNodes ((cleaning undefOf func block rest phis removed).body block).instrs := by
    rw [phiNodes_cleaning hrest]
    exact List.mem_map_of_mem hphi
  rcases hbad with hempty | ⟨first, tail, hincoming, hstale⟩
  · exact hcleaned.nonempty _ hmem (by simp [PhiNode.mapValues, hempty])
  · have hpred := hcleaned.from_predecessor _ hmem
      (undefined undefOf removed first.1, first.2)
      (by simp [PhiNode.mapValues, hincoming])
    rw [cleaning_succs] at hpred
    exact hstale (decide_eq_true hpred)

theorem cleanedUp_of_survivors (hrest : EndsPhis rest)
    (hfinal : phis = survivors (fun pred => block ∈ func.succs pred)
      (phiNodes (func.body block).instrs))
    (hremoved : ∀ id, id ∈ removed ↔
      id ∈ removedIds (fun pred => block ∈ func.succs pred)
        (phiNodes (func.body block).instrs))
    (hundef : ∀ value, ∀ phi ∈ phiNodes (func.body block).instrs,
      undefOf value ≠ phi.id) :
    CleanedUp undefOf func block (cleaning undefOf func block rest phis removed) := by
  have hids : ∀ value, ∀ id ∈ removed, undefOf value ≠ id := by
    intro value id hid
    obtain ⟨valid, hvalid, rfl⟩ := List.mem_map.mp ((hremoved id).mp hid)
    obtain ⟨phi, hphi, rfl⟩ := List.mem_map.mp (List.mem_filter.mp hvalid).1
    exact hundef value phi hphi
  have hnodes :
      phiNodes ((cleaning undefOf func block rest phis removed).body block).instrs = _ :=
    phiNodes_cleaning hrest
  refine ⟨?_, ?_, ?_⟩
  · rw [hnodes, hfinal]
    intro phi hphi entry hentry
    obtain ⟨kept, hkept, rfl⟩ := List.mem_map.mp hphi
    obtain ⟨old, hold, rfl⟩ := List.mem_map.mp hentry
    obtain ⟨original, _, rfl⟩ := List.mem_map.mp (List.mem_filter.mp hkept).1
    rw [cleaning_succs]
    exact of_decide_eq_true (List.mem_filter.mp hold).2
  · rw [hnodes, hfinal]
    intro phi hphi
    obtain ⟨kept, hkept, rfl⟩ := List.mem_map.mp hphi
    have hne := (List.mem_filter.mp hkept).2
    simpa [PhiNode.mapValues] using hne
  · rw [hnodes, ← hfinal]
    congr 2
    funext value
    rw [undefined_eq hids]
    exact if_congr (hremoved value) rfl rfl

theorem nodesExamined_of_cleanedUp
    (hcleaned : CleanedUp undefOf func block (cleanupPHIs undefOf func block).1) :
    NodesExamined (fun pred => block ∈ func.succs pred)
      (phiNodes (func.body block).instrs) := by
  obtain ⟨rest, hsplit, hrest⟩ := exists_phiNodes (func.body block).instrs
  rw [cleanupPHIs_eq hsplit hrest] at hcleaned
  by_contra hnot
  obtain ⟨phi, hphi, hbad⟩ := (missed_of_not_nodesExamined hnot).sweep
  exact not_cleanedUp hrest hphi hbad hcleaned

end Blocks

/-- The clean-up of a block is complete exactly if every PHI node has an entry and
every node whose first two entries are not valid is followed by one whose single
entry is not.  An undefined value is no PHI node. -/
theorem cleanupPHIs_cleanedUp_iff
    (undefOf : ValueId → ValueId) (func : Func) (block : BlockId)
    (hundef : ∀ value, ∀ phi ∈ phiNodes (func.body block).instrs,
      undefOf value ≠ phi.id) :
    CleanedUp undefOf func block (cleanupPHIs undefOf func block).1 ↔
      NodesExamined (fun pred => block ∈ func.succs pred)
        (phiNodes (func.body block).instrs) := by
  constructor
  · exact nodesExamined_of_cleanedUp
  · intro hnodes
    obtain ⟨rest, hsplit, hrest⟩ := exists_phiNodes (func.body block).instrs
    rw [cleanupPHIs_eq hsplit hrest]
    obtain ⟨hfinal, hremoved⟩ := hnodes.sweeping.sweep
    exact cleanedUp_of_survivors hrest hfinal hremoved hundef

/-- Block 3 has one PHI node, and only block 2 branches to it. -/
def joinFunction (incoming : Incoming) : Func where
  order := [0, 1, 2, 3]
  body := fun block =>
    match block with
    | 0 => ⟨[], ⟨30, 0, [], [1, 2]⟩⟩
    | 1 => ⟨[], ⟨31, 0, [], [2]⟩⟩
    | 2 => ⟨[], ⟨32, 0, [], [3]⟩⟩
    | _ => ⟨[⟨10, .phi incoming⟩], ⟨33, 0, [], []⟩⟩
  freshBlock := 4
  freshValue := 34

theorem joinFunction_cleanedUp :
    CleanedUp (fun _ => 40) (joinFunction [(20, 0), (22, 2)]) 3
      (cleanupPHIs (fun _ => 40) (joinFunction [(20, 0), (22, 2)]) 3).1 := by
  refine (cleanupPHIs_cleanedUp_iff _ _ _ fun _ => by decide).mpr ⟨by decide, ?_⟩
  rintro front phi back hsplit ⟨first, second, rest, hincoming, _, hstale⟩
  cases front with
  | nil =>
      cases hsplit
      cases hincoming
      exact (hstale (by decide)).elim
  | cons head front => cases front <;> cases hsplit

/-- Of two entries that are not valid at the start, the second one is left. -/
theorem joinFunction_not_cleanedUp :
    ¬CleanedUp (fun _ => 40) (joinFunction [(20, 0), (21, 1), (22, 2)]) 3
      (cleanupPHIs (fun _ => 40) (joinFunction [(20, 0), (21, 1), (22, 2)]) 3).1 := by
  intro hcleaned
  obtain ⟨last, hmem, _⟩ := (nodesExamined_of_cleanedUp hcleaned).rescued [] _ [] rfl
    ⟨_, _, _, rfl, by decide, by decide⟩
  cases hmem

end BarrierTailReplication

end Pocl
