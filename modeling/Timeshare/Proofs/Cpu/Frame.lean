import Timeshare.Proofs.Cpu.Faults
import Timeshare.Proofs.Table

/-!
# What a run does to the memory

`Program.trace` lists the instructions that a run retires. A run touches the memory only
through the loads and stores among them: `Memory.Framed trace m m'` says how a memory `m'`
differs from the memory `m` by the accesses of a trace, page by page (`Page.Framed`) and in
its counters. One retired instruction frames the memory by itself
(`Instruction.framed_execute`), frames compose along a trace (`Memory.Framed.append`), and
the instruction that stops a run adds no access and at most the count of a fault
(`Cpu.framed_run`).
-/

namespace Timeshare

namespace Instruction

/-- Whether the instruction is a load or a store. -/
def isAccess : Instruction → Bool
  | .load .. | .store .. => true
  | _ => false

/-- Whether the instruction is a load or a store that names the page. -/
def names (page : PageNumber) : Instruction → Bool
  | .load _ p _ | .store _ p _ => p.toNat == page
  | _ => false

/-- Whether the instruction is a store to the page. -/
def storesTo (page : PageNumber) : Instruction → Bool
  | .store _ p _ => p.toNat == page
  | _ => false

/-- Whether the instruction is a store whose four bytes contain the byte `j` of the page. -/
def covers (page : PageNumber) (j : Nat) : Instruction → Bool
  | .store _ p offset => p.toNat == page && offset.toNat ≤ j && j < offset.toNat + 4
  | _ => false

variable {i : Instruction} {page : PageNumber}

theorem storesTo_of_not_names (h : i.names page = false) : i.storesTo page = false := by
  cases i with
  | store rs p offset => exact h
  | _ => rfl

theorem names_of_not_isAccess (h : i.isAccess = false) (page : PageNumber) :
    i.names page = false := by
  cases i with
  | load | store => cases h
  | _ => rfl

end Instruction

/-! ## Differences by the accesses of a trace -/

/-- How a resident page differs by the accesses of a trace. -/
structure Page.Framed (trace : List Instruction) (page : PageNumber) (p p' : Page) : Prop where
  number_eq : p'.number = p.number
  zone_eq : p'.zone = p.zone
  pinned_eq : p'.flags.pinned = p.flags.pinned
  requested_eq : p'.requested = p.requested
  /-- Exactly the stores make a page dirty. -/
  dirty_eq : p'.flags.dirty = (p.flags.dirty || trace.any (·.storesTo page))
  /-- A byte is changed only by a store that covers it. -/
  byte_eq : ∀ j, trace.any (·.covers page j) = false → p'.content[j]? = p.content[j]?
  /-- A page that is never named stays as it is, with the time of its last access. -/
  eq_of_not_named : trace.any (·.names page) = false → p' = p

/-- How a memory differs by the accesses of a trace, the count of its faults apart. -/
structure Memory.Framed (trace : List Instruction) (m m' : Memory) : Prop where
  pages : m.pages.Related (Page.Framed trace) m'.pages
  initialized_eq : m'.initialized = m.initialized
  totalPages_eq : m'.totalPages = m.totalPages
  capacity_eq : m'.capacity = m.capacity
  evictions_eq : m'.evictions = m.evictions
  writebacks_eq : m'.writebacks = m.writebacks
  /-- Every access that was carried out moves the clock by one. -/
  clock_eq : m'.clock = m.clock + trace.countP (·.isAccess)

namespace Page

variable {trace trace' : List Instruction} {page : PageNumber} {p p' p₁ : Page}

theorem framed_self (h : trace.any (·.names page) = false) (p : Page) :
    p.Framed trace page p := by
  have hstores : trace.any (·.storesTo page) = false := by
    rw [List.any_eq_false] at h ⊢
    intro i hi
    simpa using Instruction.storesTo_of_not_names (by simpa using h i hi)
  exact ⟨rfl, rfl, rfl, rfl, by rw [hstores, Bool.or_false], fun _ _ => rfl, fun _ => rfl⟩

theorem Framed.append (h : p.Framed trace page p') (h' : p'.Framed trace' page p₁) :
    p.Framed (trace ++ trace') page p₁ where
  number_eq := h'.number_eq.trans h.number_eq
  zone_eq := h'.zone_eq.trans h.zone_eq
  pinned_eq := h'.pinned_eq.trans h.pinned_eq
  requested_eq := h'.requested_eq.trans h.requested_eq
  dirty_eq := by rw [h'.dirty_eq, h.dirty_eq, List.any_append, Bool.or_assoc]
  byte_eq := by
    intro j hj
    rw [List.any_append, Bool.or_eq_false_iff] at hj
    rw [h'.byte_eq j hj.2, h.byte_eq j hj.1]
  eq_of_not_named := by
    intro hnone
    rw [List.any_append, Bool.or_eq_false_iff] at hnone
    rw [h'.eq_of_not_named hnone.2, h.eq_of_not_named hnone.1]

/-- A load moves only the time of the last access. -/
theorem framed_touch (p : Page) (rd : Register) (number offset : UInt16) (now : Nat) :
    p.Framed [.load rd number offset] number.toNat (p.touch now) where
  number_eq := rfl
  zone_eq := rfl
  pinned_eq := rfl
  requested_eq := rfl
  dirty_eq := (Bool.or_false _).symm
  byte_eq _ _ := rfl
  eq_of_not_named h := by simp [Instruction.names] at h

/-- A store makes the page dirty and overwrites four bytes. -/
theorem framed_written (p : Page) (rs : Register) (number offset : UInt16) (value : UInt32)
    (now : Nat) :
    p.Framed [.store rs number offset] number.toNat
      (p.written offset.toNat (Memory.wordBytes value) now) where
  number_eq := rfl
  zone_eq := rfl
  pinned_eq := Bool.or_false _
  requested_eq := rfl
  dirty_eq := by simp [written, PageFlags.union, Instruction.storesTo]
  byte_eq := by
    intro j hj
    rcases Nat.lt_or_ge j pageSize with hlt | hge
    · rw [written, getElem?_overlay _ _ _ _ hlt, if_neg]
      simpa [Instruction.covers, Memory.wordBytes] using hj
    · simp [hge]
  eq_of_not_named h := by simp [Instruction.names] at h

end Page

namespace Memory

variable {trace trace' : List Instruction} {i : Instruction} {m m' m₁ : Memory}

theorem framed_self (h : ∀ i ∈ trace, i.isAccess = false) (m : Memory) : m.Framed trace m where
  pages := by
    refine Table.Related.refl (fun page p => Page.framed_self ?_ p) m.pages
    rw [List.any_eq_false]
    exact fun i hi => by simpa using Instruction.names_of_not_isAccess (h i hi) page
  initialized_eq := rfl
  totalPages_eq := rfl
  capacity_eq := rfl
  evictions_eq := rfl
  writebacks_eq := rfl
  clock_eq := by
    rw [List.countP_eq_zero.2 (fun i hi => by simp [h i hi]), Nat.add_zero]

theorem Framed.append (h : m.Framed trace m') (h' : m'.Framed trace' m₁) :
    m.Framed (trace ++ trace') m₁ where
  pages := h.pages.trans h'.pages fun _ _ _ _ hp hp' => hp.append hp'
  initialized_eq := h'.initialized_eq.trans h.initialized_eq
  totalPages_eq := h'.totalPages_eq.trans h.totalPages_eq
  capacity_eq := h'.capacity_eq.trans h.capacity_eq
  evictions_eq := h'.evictions_eq.trans h.evictions_eq
  writebacks_eq := h'.writebacks_eq.trans h.writebacks_eq
  clock_eq := by rw [h'.clock_eq, h.clock_eq, List.countP_append, Nat.add_assoc]

/-- The faults are no part of a frame. -/
theorem Framed.withFaults (h : m.Framed trace m') (faults : Nat) :
    m.Framed trace { m' with faults } :=
  ⟨h.pages, h.initialized_eq, h.totalPages_eq, h.capacity_eq, h.evictions_eq,
    h.writebacks_eq, h.clock_eq⟩

/-- An access to one resident page that frames it frames the memory. -/
theorem framed_accessed {page : PageNumber} {p p' : Page} (hp : m.pages.get? page = some p)
    (hi : i.isAccess = true) (hother : ∀ other, page ≠ other → i.names other = false)
    (h : p.Framed [i] page p') : m.Framed [i] (m.accessed page p') where
  pages := by
    intro other
    rw [accessed, Table.get?_insert]
    by_cases heq : page = other
    · subst heq
      rw [if_pos rfl]
      exact .inr ⟨p, p', hp, rfl, h⟩
    · rw [if_neg heq]
      have hframed : ∀ x : Page, x.Framed [i] other x :=
        Page.framed_self (by simp [hother other heq])
      cases hx : m.pages.get? other with
      | none => exact .inl ⟨rfl, rfl⟩
      | some x => exact .inr ⟨x, x, rfl, rfl, hframed x⟩
  initialized_eq := rfl
  totalPages_eq := rfl
  capacity_eq := rfl
  evictions_eq := rfl
  writebacks_eq := rfl
  clock_eq := by simp [accessed, hi]

/-- A word that was read is in a resident page, in which the read left its time. -/
theorem exists_of_readWord {page : PageNumber} {offset : Nat} {value : UInt32}
    (h : (m.readWord page offset).result = .ok value) :
    ∃ p, m.pages.get? page = some p ∧
      (m.readWord page offset).state = m.accessed page (p.touch (m.clock + 1)) := by
  have hperformed := m.performed_perform (.readWord page offset)
  rw [after, perform, Reply.state_map, Reply.result_map, h] at hperformed
  generalize (m.readWord page offset).state = m' at hperformed ⊢
  cases hperformed with
  | loaded hreads ready resident fits =>
      cases hreads
      exact ⟨_, resident, rfl⟩
  | _ => contradiction

theorem exists_of_writeWord {page : PageNumber} {offset : Nat} {value : UInt32}
    (h : (m.writeWord page offset value).result = .ok ()) :
    ∃ p, m.pages.get? page = some p ∧
      (m.writeWord page offset value).state =
        m.accessed page (p.written offset (wordBytes value) (m.clock + 1)) := by
  have hperformed := m.performed_perform (.writeWord page offset value)
  rw [after, perform, Reply.state_map, Reply.result_map, h] at hperformed
  generalize (m.writeWord page offset value).state = m' at hperformed ⊢
  cases hperformed with
  | stored hstores ready resident fits =>
      cases hstores
      exact ⟨_, resident, rfl⟩
  | _ => contradiction

end Memory

/-! ## One step -/

/-- The faults of the memory that are counted for the end of a run. -/
def Exit.faultCount : Exit → Nat
  | .ok _ => 0
  | .error e => e.faultCount

section step

variable {i : Instruction} {length : Nat} {p : Program} {w w' : Workspace} {exit : Exit}

/-- An instruction that is followed by another one touches the memory by its own access. -/
theorem Instruction.framed_execute (h : i.execute length w = .next w') :
    w.memory.Framed [i] w'.memory ∧ w'.memory.faults = w.memory.faults := by
  have hmemory := i.memory_execute length w
  rw [h] at hmemory
  change w'.memory = i.memoryAfter w at hmemory
  rw [hmemory]
  cases i with
  | load rd page offset =>
      simp only [execute] at h
      split at h
      next value hvalue =>
        obtain ⟨p, hp, hstate⟩ := Memory.exists_of_readWord hvalue
        rw [memoryAfter, hstate]
        refine ⟨Memory.framed_accessed hp rfl ?_ (p.framed_touch rd page offset _), rfl⟩
        exact fun other hother => beq_eq_false_iff_ne.2 hother
      · cases h
  | store rs page offset =>
      simp only [execute] at h
      split at h
      next hvalue =>
        obtain ⟨p, hp, hstate⟩ := Memory.exists_of_writeWord hvalue
        rw [memoryAfter, hstate]
        refine ⟨Memory.framed_accessed hp rfl ?_ (p.framed_written rs page offset _ _), rfl⟩
        exact fun other hother => beq_eq_false_iff_ne.2 hother
      · cases h
  | _ => exact ⟨Memory.framed_self (by simp [isAccess]) w.memory, rfl⟩

/-- A load or store that stops a run has failed. -/
theorem Instruction.isAccess_of_stop {outcome : RunOutcome}
    (h : i.execute length w = .stop (.ok outcome) w') : i.isAccess = false := by
  cases i with
  | load rd page offset | store rs page offset =>
      simp only [execute] at h
      split at h <;> cases h
  | _ => rfl

namespace Program

/-- The instruction that a step retires; a wait is retired although it stops the run. -/
def retires? (p : Program) (w : Workspace) : Option Instruction :=
  match p.step w with
  | .next _ | .stop (.ok .waiting) _ => p.get? w.context.ip
  | .stop _ _ => none

/-- A step that goes on retires an instruction and touches the memory by its access. -/
theorem framed_of_next (h : p.step w = .next w') :
    w.memory.Framed (p.retires? w).toList w'.memory ∧
      w'.context.retired = w.context.retired + (p.retires? w).toList.length ∧
      w'.memory.faults = w.memory.faults := by
  have hretired := (step_eq_next h).1
  obtain ⟨i, hi, hnext⟩ := execute_of_next h
  obtain ⟨hframed, hfaults⟩ := Instruction.framed_execute hnext
  rw [retires?, h, hi]
  exact ⟨hframed, hretired, hfaults⟩

/-- A step that stops a run accesses nothing, and the memory counts the fault if the page was
not resident. -/
theorem framed_of_stop (h : p.step w = .stop exit w') :
    w.memory.Framed (p.retires? w).toList w'.memory ∧
      w'.context.retired = w.context.retired + (p.retires? w).toList.length ∧
      w'.memory.faults = w.memory.faults + exit.faultCount := by
  rw [retires?, h]
  cases stopped_of_step h with
  | halted => exact ⟨Memory.framed_self (by simp) w.memory, rfl, rfl⟩
  | waiting =>
      obtain ⟨-, hexit, -⟩ | ⟨i, hi, hstop⟩ := execute_of_stop h
      · cases hexit
      · have haccess := Instruction.isAccess_of_stop hstop
        rw [hi]
        exact ⟨Memory.framed_self (by simpa using haccess) w.memory, rfl, rfl⟩
  | failed e memory =>
      rw [(failsAt_of_step h).1]
      exact ⟨(Memory.framed_self (by simp) w.memory).withFaults _, rfl, rfl⟩

end Program

end step

/-! ## The whole run -/

namespace Program

variable {p : Program} {w : Workspace}

/-- The instructions that are retired by up to `budget` steps, in their order. -/
def traceFor (p : Program) : Nat → Workspace → List Instruction
  | 0, _ => []
  | budget + 1, w =>
    (p.retires? w).toList ++
      match p.step w with
      | .next w' => p.traceFor budget w'
      | .stop _ _ => []

theorem framed_runFor (p : Program) (budget : Nat) (w : Workspace) :
    w.memory.Framed (p.traceFor budget w) (p.runFor budget w).2.memory ∧
      (p.runFor budget w).2.context.retired =
        w.context.retired + (p.traceFor budget w).length ∧
      (p.runFor budget w).2.memory.faults =
        w.memory.faults + Exit.faultCount (p.runFor budget w).1 := by
  induction budget generalizing w with
  | zero => exact ⟨Memory.framed_self (by simp [traceFor]) w.memory, rfl, rfl⟩
  | succ budget ih =>
      rw [traceFor]
      cases hs : p.step w with
      | next w' =>
          obtain ⟨hframed, hretired, hfaults⟩ := framed_of_next hs
          obtain ⟨hframed', hretired', hfaults'⟩ := ih w'
          rw [runFor_succ_of_next hs]
          refine ⟨hframed.append hframed', ?_, ?_⟩
          · rw [List.length_append, ← Nat.add_assoc, ← hretired]
            exact hretired'
          · rw [hfaults', hfaults]
      | stop exit w' =>
          rw [runFor_succ_of_stop hs, List.append_nil]
          exact framed_of_stop hs

/-- The instructions that are retired by a run that continues the context of the
workspace. -/
def trace (p : Program) (budget : Nat) (w : Workspace) : List Instruction :=
  match w.context.enter p with
  | .error _ => []
  | .ok context => p.traceFor budget { w with context }

theorem framed_resume (p : Program) (budget : Nat) (w : Workspace) :
    w.memory.Framed (p.trace budget w) (p.resume budget w).2.memory ∧
      (p.resume budget w).2.context.retired =
        w.context.retired + (p.trace budget w).length ∧
      (p.resume budget w).2.memory.faults =
        w.memory.faults + Exit.faultCount (p.resume budget w).1 := by
  rw [trace]
  cases he : w.context.enter p with
  | error e =>
      rw [resume_of_enter_error he]
      refine ⟨Memory.framed_self (by simp) w.memory, rfl, ?_⟩
      have hcount : e.faultCount = 0 := by
        obtain ⟨-, -, rfl⟩ := enter_eq_error_iff.1 he
        rfl
      exact congrArg (w.memory.faults + ·) hcount.symm
  | ok context =>
      rw [resume_of_enter_ok he, ← retired_of_enter he]
      exact p.framed_runFor budget { w with context }

end Program

namespace Exit

variable {exit : Exit}

theorem faultCount_of_pageFault {page : PageNumber} (h : exit = .error (.memory (.pageFault page))) :
    exit.faultCount = 1 := by
  rw [h]
  rfl

theorem faultCount_eq_zero (h : ∀ page, exit ≠ .error (.memory (.pageFault page))) :
    exit.faultCount = 0 := by
  cases exit with
  | ok outcome => rfl
  | error e =>
      cases e with
      | memory cause => exact MemoryError.faultCount_eq_zero fun page hpage => h page (by rw [hpage])
      | _ => rfl

end Exit

namespace Cpu

variable {cpu : Cpu} {p : Program} {w : Workspace} {budget : Option Nat}

theorem result_run_eq_error_iff (hp : cpu.powered = true) {e : CpuError} :
    (cpu.run p w budget).result = .error e ↔
      (p.resume (budget.getD unlimited) w).1 = .error e := by
  rw [result_run hp]
  cases (p.resume (budget.getD unlimited) w).1 <;> simp [Except.map]

/-- A run touches the memory only through its own loads and stores. The resident pages keep
their zones, pinned flags and requested sizes, and the limits, the evictions and the
writebacks are as before; the clock has moved by the number of loads and stores that were
retired; a byte has changed only if a retired store covers it, a page is dirty only if it was
or a retired store names it, and a page that no retired load or store names is as it was with
the time of its last access; and the faults are one more exactly if the run ended at a page
that was not resident. Without power a run changes nothing, in the processor neither. -/
theorem framed_run (cpu : Cpu) (p : Program) (w : Workspace) (budget : Option Nat) :
    let run := cpu.run p w budget
    let trace := p.trace (budget.getD unlimited) w
    (cpu.powered = true →
      run.workspace.context.retired = w.context.retired + trace.length ∧
        w.memory.Framed trace run.workspace.memory ∧
        run.workspace.memory.pages.keys = w.memory.pages.keys ∧
        ((∃ page, run.result = .error (.memory (.pageFault page))) →
          run.workspace.memory.faults = w.memory.faults + 1) ∧
        ((∀ page, run.result ≠ .error (.memory (.pageFault page))) →
          run.workspace.memory.faults = w.memory.faults)) ∧
    (cpu.powered = false → run.result = .error .notReady ∧ run.workspace = w ∧ run.cpu = cpu) := by
  intro run trace
  refine ⟨fun hp => ?_, fun hp => ?_⟩
  · obtain ⟨hframed, hretired, hfaults⟩ := p.framed_resume (budget.getD unlimited) w
    rw [← workspace_run hp] at hframed hretired hfaults
    refine ⟨hretired, hframed, hframed.pages.keys_eq, ?_, fun hnone => ?_⟩
    · rintro ⟨page, hpage⟩
      rw [hfaults, Exit.faultCount_of_pageFault ((result_run_eq_error_iff hp).1 hpage)]
    · have hexit := fun page => mt (result_run_eq_error_iff hp).2 (hnone page)
      rw [hfaults, Exit.faultCount_eq_zero hexit, Nat.add_zero]
  · simp only [run, Cpu.run, hp]
    exact ⟨rfl, rfl, rfl⟩

/-- The last word of one page is overwritten and read again before a page is met that is not
resident: the clock moves by two, the first page is dirty from its byte 4092 on, a second page
is as it was, and the fault is counted. -/
theorem framed_run_of_absent_page :
    let cpu : Cpu := { powered := true }
    let p := Program.ofList
      [.loadImm 0 0x01020304, .store 0 0 4092, .load 1 0 4092, .store 1 3 0, .halt]
    let first : Page := { number := 0, zone := .user, lastAccess := 1, requested := 16 }
    let second : Page := { number := 1, zone := .kernel, lastAccess := 2, requested := 4096 }
    let pages := (({} : Table Page).insert 0 first).insert 1 second
    let w : Workspace :=
      ⟨{}, { initialized := true, pages, totalPages := 4, capacity := 4, clock := 2 }⟩
    let run := cpu.run p w (some 10)
    let off := ({ cpu with powered := false } : Cpu).run p w (some 10)
    cpu.powered = true ∧ run.result = .error (.memory (.pageFault 3)) ∧
      p.trace 10 w = [.loadImm 0 0x01020304, .store 0 0 4092, .load 1 0 4092] ∧
      run.workspace.memory.clock = 4 ∧ run.workspace.memory.faults = 1 ∧
      (∃ p', run.workspace.memory.pages.get? 0 = some p' ∧ p'.flags.dirty = true ∧
        p'.content[4091]? = first.content[4091]?) ∧
      run.workspace.memory.pages.get? 1 = some second ∧ off.workspace = w := by
  intro cpu p first second pages w run off
  have hp : cpu.powered = true := rfl
  have hresult : run.result = .error (.memory (.pageFault 3)) := rfl
  have htrace : p.trace 10 w =
      [.loadImm 0 0x01020304, .store 0 0 4092, .load 1 0 4092] := rfl
  obtain ⟨-, hframed, -, hfault, -⟩ := (framed_run cpu p w (some 10)).1 hp
  have hoff := (framed_run { cpu with powered := false } p w (some 10)).2 rfl
  rw [Option.getD_some, htrace] at hframed
  obtain ⟨p', hp', hfirst⟩ := hframed.pages.exists_get? (k := 0) (x := first) rfl
  obtain ⟨p₁, hp₁, hsecond⟩ := hframed.pages.exists_get? (k := 1) (x := second) rfl
  have hdirty : p'.flags.dirty = true := hfirst.dirty_eq
  have hbyte : p'.content[4091]? = first.content[4091]? := hfirst.byte_eq 4091 rfl
  obtain rfl : p₁ = second := hsecond.eq_of_not_named rfl
  exact ⟨hp, hresult, htrace, hframed.clock_eq, hfault ⟨3, hresult⟩, ⟨p', hp', hdirty, hbyte⟩,
    hp₁, hoff.2.1⟩

end Cpu

end Timeshare
