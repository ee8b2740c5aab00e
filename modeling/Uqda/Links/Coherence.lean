import Uqda.Links.Core
import Uqda.Store.Table

/-!
# Coherence of the goroutines

What holds in every interleaving of the links actor, whoever connects: records
and connections are allocated once, dial goroutines never share a record, and a
dial goroutine that has attached its connection stays attached until it detaches
it.  An inbound goroutine has no such guarantee.
-/

namespace Uqda.Links

open Uqda.Store Uqda.Transition

/-- Goroutine `n` runs with a link record. -/
def State.Runs (state : State) (n : Nat) (task : Task) : Prop :=
  state.workers[n]? = some (.running task)

/-- The connection is the `_conn` of the record. -/
def Table.Attached (table : Table) (id conn : Nat) : Prop :=
  ∃ link, table.heap[id]? = some link ∧ link.conn = some conn

/-! ## Records and goroutines -/

section Records

variable {table : Table} {id other conn : Nat}

@[simp]
theorem Table.heap_release {info : LinkInfo} : (table.release info id).heap = table.heap := by
  unfold Table.release
  split <;> rfl

@[simp]
theorem Table.conns_release {info : LinkInfo} : (table.release info id).conns = table.conns := by
  unfold Table.release
  split <;> rfl

theorem Table.attached_release {info : LinkInfo} :
    (table.release info id).Attached other conn ↔ table.Attached other conn := by
  simp [Table.Attached]

theorem Table.Attached.unique {conn' : Nat} (attached : table.Attached id conn)
    (again : table.Attached id conn') : conn = conn' := by
  obtain ⟨link, found, held⟩ := attached
  obtain ⟨same, again, held'⟩ := again
  cases found.symm.trans again
  exact Option.some.inj (held.symm.trans held')

theorem Table.attached_setConn_of_ne {value : Option Nat} (different : other ≠ id) :
    (table.setConn id value).Attached other conn ↔ table.Attached other conn := by
  simp [Table.Attached, Table.setConn, getElem?_modify_eq_some_iff, different]

theorem Table.attached_setConn_self {value : Option Nat} (inside : id < table.heap.length) :
    (table.setConn id value).Attached id conn ↔ value = some conn := by
  simp [Table.Attached, Table.setConn, inside]

theorem Table.attached_cancelLink :
    (table.cancelLink id).Attached other conn ↔ table.Attached other conn := by
  constructor
  · rintro ⟨link, found, held⟩
    rcases getElem?_modify_eq_some_iff.mp found with ⟨rfl, old, stored, rfl⟩ | ⟨-, stored⟩
    · exact ⟨old, stored, held⟩
    · exact ⟨link, stored, held⟩
  · rintro ⟨old, found, held⟩
    by_cases equal : other = id
    · subst equal
      exact ⟨_, getElem?_modify_eq_some_iff.mpr (.inl ⟨rfl, old, found, rfl⟩), held⟩
    · exact ⟨old, getElem?_modify_eq_some_iff.mpr (.inr ⟨equal, found⟩), held⟩

theorem Table.Attached.alloc (attached : table.Attached id conn) (link : Link) :
    (table.alloc link).Attached id conn := by
  obtain ⟨old, found, held⟩ := attached
  exact ⟨old, getElem?_concat_eq_some_iff.mpr (.inr found), held⟩

theorem Table.Attached.of_alloc {link : Link} (attached : (table.alloc link).Attached id conn)
    (empty : link.conn = none) : table.Attached id conn := by
  obtain ⟨old, found, held⟩ := attached
  rcases getElem?_concat_eq_some_iff.mp found with ⟨-, rfl⟩ | stored
  · rw [empty] at held
    cases held
  · exact ⟨old, stored, held⟩

theorem Table.Attached.lt_length (attached : table.Attached id conn) : id < table.heap.length := by
  obtain ⟨link, found, -⟩ := attached
  exact (List.getElem?_eq_some_iff.mp found).1

theorem Table.stored_ne_none {info : LinkInfo} (entry : table.links info = some id)
    (inside : id < table.heap.length) : table.stored info ≠ none := by
  have found := List.getElem?_eq_some_iff.mpr ⟨inside, rfl⟩
  rw [Table.stored_eq_some_iff.mpr ⟨entry, found⟩]
  nofun

/-- The deferred section only deletes. -/
theorem Table.links_of_release {info info' : LinkInfo}
    (entry : (table.release info id).links info' = some other) :
    table.links info' = some other := by
  unfold Table.release at entry
  split at entry
  · exact eq_some_of_update_none entry
  · exact entry

/-- The deferred section keeps the entries of other records. -/
theorem Table.links_release_of_ne {info info' : LinkInfo}
    (entry : table.links info' = some other) (different : other ≠ id) :
    (table.release info id).links info' = some other := by
  unfold Table.release
  split
  case isTrue stored =>
    refine (Function.update_of_ne (fun equal => ?_) _ _).trans entry
    rw [equal, stored] at entry
    exact different (Option.some.inj entry).symm
  case isFalse => exact entry

end Records

/-- The link table points to records, and the connections attached to records
have been wrapped. -/
structure Table.Valid (table : Table) : Prop where
  entries : ∀ info id, table.links info = some id → id < table.heap.length
  wrapped : ∀ id conn, table.Attached id conn → conn < table.conns

/-- What holds of each goroutine.  Its connection is attached to no other record
than its own, and a dial goroutine that has attached its connection stays
attached until it detaches it. -/
structure Task.Fits (table : Table) (task : Task) : Prop where
  allocated : task.link < table.heap.length
  fresh : ∀ conn, task.pc.conn = some conn → conn < table.conns
  own : ∀ conn, task.pc.conn = some conn → ∀ id, table.Attached id conn → id = task.link
  inbound : task.dials = false → task.pc.inbound = true
  attached : task.dials = true → ∀ conn, task.pc = .handling conn ∨ task.pc = .handled conn →
    table.Attached task.link conn

theorem Task.Fits.dials_of_outgoing {table : Table} {task : Task} (fits : task.Fits table)
    (outgoing : task.pc.inbound = false) : task.dials = true := by
  by_contra accepted
  rw [fits.inbound (Bool.not_eq_true _ ▸ accepted)] at outgoing
  cases outgoing

/-- What holds of two goroutines: they have different connections, and if both
dial they have different records. -/
structure Task.Apart (task other : Task) : Prop where
  conns : ∀ conn, task.pc.conn = some conn → other.pc.conn ≠ some conn
  records : task.dials = true → other.dials = true → task.link ≠ other.link

theorem Task.Apart.symm {task other : Task} (apart : task.Apart other) : other.Apart task where
  conns conn held held' := apart.conns conn held' held
  records dials dials' equal := apart.records dials' dials equal.symm

/-- The invariant of all interleavings. -/
structure State.Coherent (state : State) : Prop where
  valid : state.table.Valid
  fits : ∀ n task, state.Runs n task → task.Fits state.table
  apart : ∀ n task m other, state.Runs n task → state.Runs m other → n ≠ m → task.Apart other

theorem State.resume_runs_iff {state : State} {n m : Nat} {worker : Worker} {table : Table}
    {task other : Task} (present : state.workers[n]? = some worker) :
    (state.resume n table task).Runs m other ↔
      (m = n ∧ task = other) ∨ (m ≠ n ∧ state.Runs m other) := by
  simp [State.Runs, State.resume, getElem?_set_eq_some_iff present]

theorem State.spawn_runs_iff {state : State} {m : Nat} {table : Table} {worker : Worker}
    {other : Task} :
    (state.spawn table worker).Runs m other ↔
      (m = state.workers.length ∧ worker = .running other) ∨ state.Runs m other := by
  simp [State.Runs, State.spawn, getElem?_concat_eq_some_iff]

theorem State.connected_runs_iff {state : State} {m : Nat} {table : Table} {info : LinkInfo}
    {other : Task} :
    (state.spawn table (.accepted info)).Runs m other ↔ state.Runs m other := by
  simp [State.spawn_runs_iff]

/-- The section of a goroutine without a record leaves the others where they are. -/
theorem State.Runs.resume_waiting {state : State} {n m : Nat} {info : LinkInfo} {table : Table}
    {task other : Task} (runs : state.Runs m other)
    (waiting : state.workers[n]? = some (.accepted info)) :
    (state.resume n table task).Runs m other := by
  refine (State.resume_runs_iff waiting).mpr (.inr ⟨?_, runs⟩)
  rintro rfl
  cases runs.symm.trans waiting

/-- A goroutine is in one place. -/
theorem State.Runs.forall_iff {state : State} {n : Nat} {task : Task} {condition : Task → Prop}
    (runs : state.Runs n task) :
    (∀ other, state.Runs n other → condition other) ↔ condition task := by
  refine ⟨fun all => all task runs, fun met other again => ?_⟩
  cases runs.symm.trans again
  exact met

theorem State.Runs.lt_length {state : State} {n : Nat} {task : Task} (runs : state.Runs n task) :
    n < state.workers.length :=
  (List.getElem?_eq_some_iff.mp runs).1

/-! ## Coherence is an invariant -/

/-- A goroutine's facts carry over to a table with more records and connections
in which the goroutine's connection is attached nowhere else than before, and is
still attached if the goroutine dials. -/
theorem Task.Fits.transport {table result : Table} {task : Task} (fits : task.Fits table)
    (grown : table.heap.length ≤ result.heap.length) (later : table.conns ≤ result.conns)
    (before : ∀ conn id, task.pc.conn = some conn → result.Attached id conn →
      table.Attached id conn)
    (kept : task.dials = true → ∀ conn, table.Attached task.link conn →
      result.Attached task.link conn) : task.Fits result where
  allocated := Nat.lt_of_lt_of_le fits.allocated grown
  fresh conn held := Nat.lt_of_lt_of_le (fits.fresh conn held) later
  own conn held id attached := fits.own conn held id (before conn id held attached)
  inbound := fits.inbound
  attached dials conn position := kept dials conn (fits.attached dials conn position)

/-- Only the connection that is written becomes attached. -/
theorem Table.Attached.of_setConn {table : Table} {id other conn : Nat} {value : Option Nat}
    (attached : (table.setConn id value).Attached other conn) (different : value ≠ some conn) :
    table.Attached other conn := by
  by_cases equal : other = id
  · subst equal
    have inside : other < table.heap.length := by
      simpa [Table.setConn] using attached.lt_length
    exact absurd ((Table.attached_setConn_self inside).mp attached) different
  · exact (Table.attached_setConn_of_ne equal).mp attached

theorem Task.Fits.setConn {table : Table} {task : Task} {id : Nat} {value : Option Nat}
    (fits : task.Fits table) (foreign : ∀ conn, value = some conn → task.pc.conn ≠ some conn)
    (vacant : task.dials = true → task.link = id → ∀ conn, ¬ table.Attached id conn) :
    task.Fits (table.setConn id value) := by
  refine fits.transport (by simp [Table.setConn]) (Nat.le_refl _) ?_ ?_
  · intro conn other held attached
    exact attached.of_setConn fun written => foreign conn written held
  · intro dials conn attached
    refine (Table.attached_setConn_of_ne fun equal => ?_).mpr attached
    exact vacant dials equal conn (equal ▸ attached)

theorem Task.Fits.wrap {table : Table} {task : Task} (fits : task.Fits table) :
    task.Fits table.wrap :=
  fits.transport (Nat.le_refl _) (Nat.le_succ _) (fun _ _ _ attached => attached)
    fun _ _ attached => attached

theorem Task.Fits.store {table : Table} {task : Task} (fits : task.Fits table) (info : LinkInfo)
    (id : Nat) : task.Fits (table.store info id) :=
  fits.transport (Nat.le_refl _) (Nat.le_refl _) (fun _ _ _ attached => attached)
    fun _ _ attached => attached

theorem Task.Fits.alloc {table : Table} {task : Task} (fits : task.Fits table) {link : Link}
    (empty : link.conn = none) : task.Fits (table.alloc link) :=
  fits.transport (by simp [Table.alloc]) (Nat.le_refl _)
    (fun _ _ _ attached => attached.of_alloc empty) fun _ _ attached => attached.alloc link

theorem Task.Fits.release {table : Table} {task : Task} (fits : task.Fits table)
    (info : LinkInfo) (id : Nat) : task.Fits (table.release info id) :=
  fits.transport (by simp) (by simp) (fun _ _ _ => Table.attached_release.mp)
    fun _ _ => Table.attached_release.mpr

/-- The step of one goroutine keeps the facts of another one. -/
theorem Task.Fits.act_other {table result : Table} {task other : Task} {action : Action} {pc : Pc}
    (fits : other.Fits table) (acting : task.Fits table) (apart : task.Apart other)
    (step : task.act table action = some (result, pc)) : other.Fits result := by
  rcases Task.act_table step with rfl | rfl | ⟨value, outgoing, own, rfl⟩ | ⟨rfl, -⟩
  · exact fits
  · exact fits.wrap
  · have dials := acting.dials_of_outgoing outgoing
    exact fits.setConn (fun conn written => apart.conns conn (own conn written))
      fun dials' equal => absurd equal.symm (apart.records dials dials')
  · exact fits.release task.info task.link

/-- The step of a goroutine keeps its own facts. -/
theorem Task.Fits.act {table result : Table} {task : Task} {action : Action} {pc : Pc}
    (fits : task.Fits table) (valid : table.Valid)
    (step : task.act table action = some (result, pc)) :
    Task.Fits result { task with pc := pc } where
  allocated := by
    have inside := fits.allocated
    rcases Task.act_table step with rfl | rfl | ⟨value, -, -, rfl⟩ | ⟨rfl, -⟩
    · exact inside
    · exact inside
    · simpa [Table.setConn] using inside
    · simpa using inside
  fresh conn held := by
    rcases Task.act_conn step held with before | ⟨rfl, rfl⟩
    · have bound := fits.fresh conn before
      rcases Task.act_table step with rfl | rfl | ⟨value, -, -, rfl⟩ | ⟨rfl, -⟩
      · exact bound
      · exact Nat.lt_succ_of_lt bound
      · exact bound
      · simpa using bound
    · exact Nat.lt_succ_self _
  own conn held id attached := by
    -- a connection just wrapped is attached nowhere, an older one only moves to its record
    rcases Task.act_conn step held with before | ⟨rfl, rfl⟩
    · rcases Task.act_table step with rfl | rfl | ⟨value, -, -, rfl⟩ | ⟨rfl, -⟩
      · exact fits.own conn before id attached
      · exact fits.own conn before id attached
      · by_contra different
        exact different (fits.own conn before id
          ((Table.attached_setConn_of_ne different).mp attached))
      · exact fits.own conn before id (Table.attached_release.mp attached)
    · exact absurd (valid.wrapped id _ attached) (Nat.lt_irrefl _)
  inbound accepted := Task.act_inbound step accepted (fits.inbound accepted)
  attached dials conn position := by
    cases action with
    | attach =>
        obtain ⟨dialed, link, -, found, rfl, rfl⟩ := Task.act_attach_eq_some_iff.mp step
        refine (Table.attached_setConn_self fits.allocated).mpr ?_
        split at position <;> simp_all
    | handlerReturns =>
        obtain ⟨handled, was, rfl, rfl⟩ := Task.act_handlerReturns_eq_some_iff.mp step
        refine fits.attached dials conn (.inl ?_)
        simp_all
    | _ =>
        unfold Task.act LinkType.afterFailure at step
        grind

theorem Task.Apart.act {table result : Table} {task other : Task} {action : Action} {pc : Pc}
    (apart : task.Apart other) (fits : other.Fits table)
    (step : task.act table action = some (result, pc)) :
    Task.Apart { task with pc := pc } other where
  conns conn held held' := by
    rcases Task.act_conn step held with before | ⟨rfl, -⟩
    · exact apart.conns conn before held'
    · exact Nat.lt_irrefl _ (fits.fresh _ held')
  records := apart.records

/-- The step of a goroutine attaches no other connection than its own. -/
theorem Table.Valid.act {table result : Table} {task : Task} {action : Action} {pc : Pc}
    (valid : table.Valid) (fits : task.Fits table)
    (step : task.act table action = some (result, pc)) : result.Valid where
  entries info id entry := by
    rcases Task.act_table step with rfl | rfl | ⟨value, -, -, rfl⟩ | ⟨rfl, -⟩
    · exact valid.entries info id entry
    · exact valid.entries info id entry
    · simpa [Table.setConn] using valid.entries info id entry
    · simpa using valid.entries info id (Table.links_of_release entry)
  wrapped id conn attached := by
    rcases Task.act_table step with rfl | rfl | ⟨value, -, own, rfl⟩ | ⟨rfl, -⟩
    · exact valid.wrapped id conn attached
    · exact Nat.lt_succ_of_lt (valid.wrapped id conn attached)
    · by_cases written : value = some conn
      · exact fits.fresh conn (own conn written)
      · exact valid.wrapped id conn (attached.of_setConn written)
    · simpa using valid.wrapped id conn (Table.attached_release.mp attached)

theorem Table.Valid.alloc {table : Table} {link : Link} (valid : table.Valid)
    (empty : link.conn = none) : (table.alloc link).Valid where
  entries info id entry := by
    simpa [Table.alloc] using Nat.lt_succ_of_lt (valid.entries info id entry)
  wrapped id conn attached := valid.wrapped id conn (attached.of_alloc empty)

theorem Table.Valid.store {table : Table} (valid : table.Valid) (info : LinkInfo) {id : Nat}
    (inside : id < table.heap.length) : (table.store info id).Valid where
  entries other pointer entry := by
    rcases update_eq_some_iff.mp entry with ⟨-, same⟩ | ⟨-, entry⟩
    · cases same
      exact inside
    · exact valid.entries other pointer entry
  wrapped := valid.wrapped

theorem Table.Valid.adopt {table : Table} (valid : table.Valid) (info : LinkInfo) {id : Nat}
    (inside : id < table.heap.length) : (table.adopt info id).1.Valid := by
  refine Table.Valid.store ⟨fun other pointer entry => ?_, fun other conn attached => ?_⟩ info ?_
  · simpa [Table.wrap, Table.setConn] using valid.entries other pointer entry
  · by_cases written : some table.conns = some conn
    · cases written
      exact Nat.lt_succ_self _
    · exact Nat.lt_succ_of_lt
        (valid.wrapped other conn (Table.Attached.of_setConn attached written))
  · simpa [Table.wrap, Table.setConn] using inside

theorem State.Coherent.resume {state : State} {n : Nat} {worker : Worker} {table : Table}
    {task : Task} (coherent : state.Coherent) (present : state.workers[n]? = some worker)
    (valid : table.Valid) (fits : task.Fits table)
    (others : ∀ m other, m ≠ n → state.Runs m other → other.Fits table ∧ task.Apart other) :
    (state.resume n table task).Coherent where
  valid := valid
  fits m other runs := by
    rcases (State.resume_runs_iff present).mp runs with ⟨-, rfl⟩ | ⟨different, runs⟩
    · exact fits
    · exact (others m other different runs).1
  apart m first k second runs runs' distinct := by
    rcases (State.resume_runs_iff present).mp runs with ⟨rfl, rfl⟩ | ⟨different, ran⟩
    · rcases (State.resume_runs_iff present).mp runs' with ⟨equal, -⟩ | ⟨different, ran'⟩
      · exact absurd equal.symm distinct
      · exact (others k second different ran').2
    · rcases (State.resume_runs_iff present).mp runs' with ⟨rfl, rfl⟩ | ⟨-, ran'⟩
      · exact (others m first different ran).2.symm
      · exact coherent.apart m first k second ran ran' distinct

theorem State.Coherent.spawn {state : State} {table : Table} {task : Task}
    (coherent : state.Coherent) (valid : table.Valid) (fits : task.Fits table)
    (others : ∀ m other, state.Runs m other → other.Fits table ∧ task.Apart other) :
    (state.spawn table (.running task)).Coherent where
  valid := valid
  fits m other runs := by
    rcases State.spawn_runs_iff.mp runs with ⟨-, same⟩ | runs
    · cases same
      exact fits
    · exact (others m other runs).1
  apart m first k second runs runs' distinct := by
    rcases State.spawn_runs_iff.mp runs with ⟨rfl, same⟩ | runs
    · cases same
      rcases State.spawn_runs_iff.mp runs' with ⟨rfl, -⟩ | runs'
      · exact absurd rfl distinct
      · exact (others k second runs').2
    · rcases State.spawn_runs_iff.mp runs' with ⟨-, same⟩ | runs'
      · cases same
        exact (others m first runs).2.symm
      · exact coherent.apart m first k second runs runs' distinct

/-- The goroutine of an accepted connection that has just been attached. -/
theorem Task.fits_adopt {table : Table} {info : LinkInfo} {id : Nat} (valid : table.Valid)
    (inside : id < table.heap.length) : (table.adopt info id).2.Fits (table.adopt info id).1 where
  allocated := by simpa [Table.adopt, Table.store, Table.wrap, Table.setConn] using inside
  fresh conn held := by
    cases held
    exact Nat.lt_succ_self _
  own conn held other attached := by
    cases held
    by_contra different
    exact Nat.lt_irrefl _
      (valid.wrapped other _ ((Table.attached_setConn_of_ne different).mp attached))
  inbound _ := rfl
  attached dials := nomatch dials

/-- An inbound section attaches only to a record without a connection, so it
keeps the facts of the other goroutines. -/
theorem Task.Fits.adopt {table : Table} {task : Task} {info : LinkInfo} {id : Nat}
    (fits : task.Fits table) (vacant : ∀ conn, ¬ table.Attached id conn) :
    task.Fits (table.adopt info id).1 := by
  refine ((fits.setConn ?_ fun _ _ => vacant).wrap).store info id
  intro conn written held
  cases written
  exact Nat.lt_irrefl _ (fits.fresh _ held)

theorem Task.apart_adopt {table : Table} {task : Task} {info : LinkInfo} {id : Nat}
    (fits : task.Fits table) : (table.adopt info id).2.Apart task where
  conns conn held held' := by
    cases held
    exact Nat.lt_irrefl _ (fits.fresh _ held')
  records dials := nomatch dials

/-- A record that was just made for an accepted connection is vacant. -/
theorem Table.alloc_vacant {table : Table} {linkType : LinkType} {cancel : Bool} (conn : Nat) :
    ¬ (table.alloc ⟨linkType, cancel, false, none⟩).Attached table.heap.length conn := by
  rintro ⟨link, found, held⟩
  rcases getElem?_concat_eq_some_iff.mp found with ⟨-, rfl⟩ | missing
  · cases held
  · simp at missing

/-- The three outcomes of the inbound section: it aborts, it attaches to a vacant
record, or it attaches to a new one. -/
theorem Table.accept_cases (table : Table) (info : LinkInfo) :
    (∃ id link conn, table.stored info = some (id, link) ∧ link.conn = some conn ∧
      table.accept info = (table, ⟨info, false, .incoming, id, .exiting⟩)) ∨
    (∃ id link, table.stored info = some (id, link) ∧ link.conn = none ∧
      table.accept info = table.adopt info id) ∨
    (table.stored info = none ∧
      table.accept info =
        (table.alloc ⟨.incoming, false, false, none⟩).adopt info table.heap.length) := by
  unfold Table.accept
  cases stored : table.stored info with
  | none => simp
  | some entry =>
      obtain ⟨id, link⟩ := entry
      cases held : link.conn <;> simp [held]

/-- A stored record without a connection is vacant. -/
theorem Table.vacant_of_stored {table : Table} {info : LinkInfo} {id : Nat} {link : Link}
    (stored : table.stored info = some (id, link)) (empty : link.conn = none) (conn : Nat) :
    ¬ table.Attached id conn := by
  rintro ⟨same, found, held⟩
  cases (Table.stored_eq_some_iff.mp stored).2.symm.trans found
  rw [empty] at held
  cases held

theorem Table.lt_length_of_stored {table : Table} {info : LinkInfo} {id : Nat} {link : Link}
    (stored : table.stored info = some (id, link)) : id < table.heap.length :=
  (List.getElem?_eq_some_iff.mp (Table.stored_eq_some_iff.mp stored).2).1

theorem State.Coherent.adopt {state : State} {n id : Nat} {worker : Worker} {info : LinkInfo}
    {table : Table} (coherent : state.Coherent) (present : state.workers[n]? = some worker)
    (valid : table.Valid) (kept : ∀ m other, state.Runs m other → other.Fits table)
    (inside : id < table.heap.length) (vacant : ∀ conn, ¬ table.Attached id conn) :
    (state.resume n (table.adopt info id).1 (table.adopt info id).2).Coherent := by
  refine coherent.resume present (valid.adopt info inside) (Task.fits_adopt valid inside)
    fun m other _ runs => ?_
  have fits := kept m other runs
  exact ⟨fits.adopt vacant, Task.apart_adopt fits⟩

theorem State.Coherent.accept {state : State} {n : Nat} {worker : Worker}
    (coherent : state.Coherent) (present : state.workers[n]? = some worker) (info : LinkInfo) :
    (state.resume n (state.table.accept info).1 (state.table.accept info).2).Coherent := by
  rcases state.table.accept_cases info with
    ⟨id, link, conn, stored, -, outcome⟩ | ⟨id, link, stored, empty, outcome⟩ | ⟨-, outcome⟩
  · rw [outcome]
    refine coherent.resume present coherent.valid ?_
      fun m other _ runs => ⟨coherent.fits m other runs, ?_⟩
    · exact ⟨Table.lt_length_of_stored stored, nofun, nofun, fun _ => rfl, nofun⟩
    · exact ⟨nofun, nofun⟩
  · rw [outcome]
    exact coherent.adopt present coherent.valid coherent.fits
      (Table.lt_length_of_stored stored) (Table.vacant_of_stored stored empty)
  · rw [outcome]
    exact coherent.adopt present (coherent.valid.alloc rfl)
      (fun m other runs => (coherent.fits m other runs).alloc rfl) (by simp [Table.alloc])
      Table.alloc_vacant

theorem State.Coherent.configure {state : State} (coherent : state.Coherent) (info : LinkInfo)
    (linkType : LinkType) :
    (state.spawn (state.table.configure info linkType).1
      (.running (state.table.configure info linkType).2)).Coherent := by
  refine coherent.spawn ((coherent.valid.alloc rfl).store info (by simp [Table.alloc])) ?_
    fun m other runs => ?_
  · exact ⟨by simp [Table.configure, Table.store, Table.alloc], nofun, nofun, nofun, nofun⟩
  · have fits := coherent.fits m other runs
    exact ⟨(fits.alloc rfl).store _ _, nofun, fun _ _ => (Nat.ne_of_lt fits.allocated).symm⟩

theorem State.Coherent.cancelLink {state : State} (coherent : state.Coherent) (id : Nat) :
    State.Coherent { state with table := state.table.cancelLink id } where
  valid :=
    { entries := fun info pointer entry => by
        simpa [Table.cancelLink] using coherent.valid.entries info pointer entry
      wrapped := fun other conn attached =>
        coherent.valid.wrapped other conn (Table.attached_cancelLink.mp attached) }
  fits m other runs :=
    (coherent.fits m other runs).transport (by simp [Table.cancelLink]) (Nat.le_refl _)
      (fun _ _ _ => Table.attached_cancelLink.mp) fun _ _ => Table.attached_cancelLink.mpr
  apart := coherent.apart

/-- Every step of the system keeps the goroutines coherent. -/
theorem State.Coherent.next {state target : State} {event : Event} (coherent : state.Coherent)
    (step : state.next event = some target) : target.Coherent := by
  cases State.moves_of_next step with
  | rejected | unknown => exact coherent
  | @configured info linkType absent => exact coherent.configure info linkType
  | @removed info id link stored cancel => exact coherent.cancelLink id
  | panicked => exact ⟨coherent.valid, coherent.fits, coherent.apart⟩
  | cancelled =>
      refine ⟨⟨coherent.valid.entries, coherent.valid.wrapped⟩, fun m other runs => ?_,
        coherent.apart⟩
      exact (coherent.fits m other runs).transport (Nat.le_refl _) (Nat.le_refl _)
        (fun _ _ _ attached => attached) fun _ _ attached => attached
  | connected =>
      refine ⟨coherent.valid, fun m other runs => ?_, fun m first k second runs runs' => ?_⟩
      · exact coherent.fits m other (State.connected_runs_iff.mp runs)
      · exact coherent.apart m first k second (State.connected_runs_iff.mp runs)
          (State.connected_runs_iff.mp runs')
  | @accepted n info waiting => exact coherent.accept waiting info
  | @acted n action task table pc running acted =>
      have fits := coherent.fits n task running
      refine coherent.resume running (coherent.valid.act fits acted)
        (fits.act coherent.valid acted) fun m other different runs => ?_
      have apart := coherent.apart n task m other running runs different.symm
      have kept := coherent.fits m other runs
      exact ⟨kept.act_other fits apart acted, apart.act kept acted⟩

theorem State.not_runs_init {n : Nat} {task : Task} : ¬ State.init.Runs n task := by
  intro runs
  cases runs

theorem State.coherent_init : State.init.Coherent where
  valid := ⟨fun _ _ entry => (nomatch entry), fun _ _ ⟨_, found, _⟩ => (nomatch found)⟩
  fits _ _ runs := absurd runs State.not_runs_init
  apart _ _ _ _ runs := absurd runs State.not_runs_init

end Uqda.Links
