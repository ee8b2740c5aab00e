import Uqda.Links.Core
import Uqda.Store.Table

/-!
# Removing a peer

`links.remove` calls the cancel function of whatever record it finds.  Records
made by `links.add` have one and records made for accepted connections do not,
so removal is safe exactly in the runs in which no accepted connection makes a
record of its own.
-/

namespace Uqda.Links

open Uqda.Store Uqda.Transition

/-- Every stored link has a cancel function. -/
def Table.Cancellable (table : Table) : Prop :=
  ∀ info id, table.links info = some id →
    ∃ link, table.heap[id]? = some link ∧ link.cancel = true

/-- The process runs, every stored link has a cancel function, and `remove`
either cancels a configured link or reports that there is none. -/
def State.RemoveSafe (state : State) : Prop :=
  state.crashed = false ∧ state.table.Cancellable ∧
    ∀ info, (∃ table, state.table.remove info = .removed table) ∨
      state.table.remove info = .failed .notConfigured

/-- An inbound section shares a record that is already stored. -/
def State.SharesRecord (state : State) : Event → Prop
  | .accept n =>
      ∀ info, state.workers[n]? = some (.accepted info) → state.table.stored info ≠ none
  | _ => True

/-! ## Writes to the table -/

theorem Table.Cancellable.modify {table : Table} (safe : table.Cancellable) (id : Nat)
    {write : Link → Link} (kept : ∀ link, (write link).cancel = link.cancel) :
    Table.Cancellable { table with heap := table.heap.modify id write } := by
  intro info other stored
  obtain ⟨link, found, cancel⟩ := safe info other stored
  by_cases equal : other = id
  · exact ⟨write link, getElem?_modify_eq_some_iff.mpr (.inl ⟨equal, link, equal ▸ found, rfl⟩),
      (kept link).trans cancel⟩
  · exact ⟨link, getElem?_modify_eq_some_iff.mpr (.inr ⟨equal, found⟩), cancel⟩

theorem Table.Cancellable.setConn {table : Table} (safe : table.Cancellable) (id : Nat)
    (conn : Option Nat) : (table.setConn id conn).Cancellable :=
  safe.modify id fun _ => rfl

theorem Table.Cancellable.alloc {table : Table} (safe : table.Cancellable) (link : Link) :
    (table.alloc link).Cancellable := by
  intro info id stored
  obtain ⟨old, found, cancel⟩ := safe info id stored
  exact ⟨old, getElem?_concat_eq_some_iff.mpr (.inr found), cancel⟩

theorem Table.Cancellable.store {table : Table} (safe : table.Cancellable) {info : LinkInfo}
    {id : Nat} {link : Link} (found : table.heap[id]? = some link) (cancel : link.cancel = true) :
    (table.store info id).Cancellable := by
  intro other pointer stored
  rcases update_eq_some_iff.mp stored with ⟨-, equal⟩ | ⟨-, stored⟩
  · cases equal
    exact ⟨link, found, cancel⟩
  · exact safe other pointer stored

theorem Table.Cancellable.release {table : Table} (safe : table.Cancellable) (info : LinkInfo)
    (id : Nat) : (table.release info id).Cancellable := by
  unfold Table.release
  split
  · exact fun other pointer stored => safe other pointer (eq_some_of_update_none stored)
  · exact safe

theorem Table.Cancellable.configure {table : Table} (safe : table.Cancellable) (info : LinkInfo)
    (linkType : LinkType) : (table.configure info linkType).1.Cancellable :=
  (safe.alloc _).store (getElem?_concat_eq_some_iff.mpr (.inl ⟨rfl, rfl⟩)) rfl

/-- The steps of a goroutine with a record keep every cancel function. -/
theorem Table.Cancellable.act {table result : Table} {task : Task} {action : Action} {pc : Pc}
    (safe : table.Cancellable) (step : task.act table action = some (result, pc)) :
    result.Cancellable := by
  rcases Task.act_table step with rfl | rfl | ⟨value, -, -, rfl⟩ | ⟨rfl, -⟩
  · exact safe
  · exact safe
  · exact safe.setConn task.link value
  · exact safe.release task.info task.link

/-- An inbound section keeps the invariant exactly when it finds a record. -/
theorem Table.Cancellable.accept_iff {table : Table} (safe : table.Cancellable)
    (info : LinkInfo) : (table.accept info).1.Cancellable ↔ table.stored info ≠ none := by
  unfold Table.accept
  split
  case h_1 id link stored =>
    obtain ⟨entry, found⟩ := Table.stored_eq_some_iff.mp stored
    simp only [stored, ne_eq, reduceCtorEq, not_false_eq_true, iff_true]
    split
    · exact safe
    · -- the record is stored already, so it has a cancel function
      obtain ⟨same, again, cancel⟩ := (safe.setConn id (some table.conns)) info id entry
      exact (safe.setConn id (some table.conns)).store again cancel
  case h_2 absent =>
    simp only [absent, ne_eq, not_true_eq_false, iff_false]
    intro holds
    obtain ⟨link, found, cancel⟩ := holds info table.heap.length (by
      simp [Table.adopt, Table.store])
    simp only [Table.adopt, Table.store, Table.wrap, Table.setConn, Table.alloc,
      getElem?_modify_eq_some_iff, getElem?_concat_eq_some_iff] at found
    rcases found with ⟨-, old, ⟨-, rfl⟩ | missing, rfl⟩ | ⟨different, -⟩
    · cases cancel
    · simp at missing
    · exact different rfl

/-! ## Panics -/

/-- A link without a cancel function is stored under the key. -/
def Table.Uncancellable (table : Table) (info : LinkInfo) : Prop :=
  ∃ id link, table.stored info = some (id, link) ∧ link.cancel = false

theorem Table.remove_eq_panicked_iff {table : Table} {info : LinkInfo} :
    table.remove info = .panicked ↔ table.Uncancellable info := by
  unfold Table.remove Table.Uncancellable
  cases stored : table.stored info with
  | none => simp
  | some entry => cases cancel : entry.2.cancel <;> simp [cancel, Prod.ext_iff]

/-- Only removing such a link ends the process. -/
theorem State.crashed_of_next {state target : State} {event : Event}
    (alive : state.crashed = false) (step : state.next event = some target) :
    target.crashed = true ↔ ∃ info, event = .remove info ∧ state.table.Uncancellable info := by
  cases State.moves_of_next step with
  | panicked stored missing => exact iff_of_true rfl ⟨_, rfl, _, _, stored, missing⟩
  | unknown absent => simp [alive, Table.Uncancellable, absent]
  | removed stored cancel => simp [alive, Table.Uncancellable, stored, cancel]
  | rejected | configured | cancelled | connected | accepted | acted =>
      simp [State.spawn, State.resume, alive]

/-! ## Runs -/

theorem State.removeSafe_iff {state : State} :
    state.RemoveSafe ↔ state.crashed = false ∧ state.table.Cancellable := by
  refine ⟨fun safe => ⟨safe.1, safe.2.1⟩, fun ⟨alive, safe⟩ => ⟨alive, safe, fun info => ?_⟩⟩
  unfold Table.remove
  split
  case h_1 id link stored =>
    obtain ⟨entry, found⟩ := Table.stored_eq_some_iff.mp stored
    obtain ⟨same, again, cancel⟩ := safe info id entry
    cases found.symm.trans again
    exact .inl ⟨_, if_pos cancel⟩
  case h_2 => exact .inr rfl

/-- Removal stays safe over a step exactly when the step does not make a record
for an accepted connection. -/
theorem State.RemoveSafe.next_iff {state target : State} {event : Event}
    (safe : state.RemoveSafe) (step : state.next event = some target) :
    target.RemoveSafe ↔ state.SharesRecord event := by
  obtain ⟨alive, cancellable, -⟩ := safe
  rw [State.removeSafe_iff]
  cases State.moves_of_next step with
  | rejected | unknown | cancelled | connected => exact iff_of_true ⟨alive, cancellable⟩ trivial
  | @configured info linkType absent =>
      exact iff_of_true ⟨alive, cancellable.configure info linkType⟩ trivial
  | @removed info id link stored cancel =>
      exact iff_of_true ⟨alive, cancellable.modify id fun _ => rfl⟩ trivial
  | @panicked info id link stored missing =>
      obtain ⟨entry, found⟩ := Table.stored_eq_some_iff.mp stored
      obtain ⟨same, again, cancel⟩ := cancellable info id entry
      cases found.symm.trans again
      cases missing.symm.trans cancel
  | @accepted n info waiting =>
      simpa [State.resume, State.SharesRecord, alive, waiting] using cancellable.accept_iff info
  | acted running acted => exact iff_of_true ⟨alive, cancellable.act acted⟩ trivial

/-- In any interleaving, `remove` is safe in every state exactly when no inbound
section makes a record of its own. -/
theorem remove_safe_iff (events : List Event) :
    Throughout State.next State.RemoveSafe .init events ↔
      EveryStep State.next State.SharesRecord .init events :=
  throughout_iff_everyStep events trivial
    (State.removeSafe_iff.mpr ⟨rfl, fun _ _ stored => nomatch stored⟩)
    (fun _ _ _ => trivial) fun _ safe step => safe.next_iff step

/-- The key of a client that a TCP listener accepted. -/
def tcpClient : LinkInfo := ⟨"tcp://192.0.2.7:40112", ""⟩

/-- Removing the link of an accepted connection ends the process. -/
theorem remove_tcpClient_panics :
    ∃ state, run State.next .init [.connected tcpClient, .accept 0] = some state ∧
      state.table.remove tcpClient = .panicked ∧
      (run State.next state [.remove tcpClient]).map State.crashed = some true :=
  ⟨_, rfl, rfl, rfl⟩

end Uqda.Links
