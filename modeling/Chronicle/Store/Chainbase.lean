/-
The revisioned store the receiver keeps its decoder state in: chainbase's
`database`, as `receiver_plugin.cpp` drives it through `set_revision`,
`start_undo_session`, `push`, `undo` and `commit`.

chainbase is a dependency of the repository, not part of it; its behaviour is
taken here as the receiver relies on it. The contents are the three indexes the
receiver registers (`state_index`, `received_block_index`,
`contract_abi_index`). The undo stack holds, newest first, the contents each
open session started from, which is what undoing it restores. Session
revisions are implicit, as in chainbase's `undo_index`: the top session has
revision `revision`, the one below `revision - 1`, and so on down to
`floor + 1`. `set_revision` refuses to run over a non-empty stack, so the
numbering never breaks, and `undo` on an empty stack does nothing.

# What is proved here

- `undo`, `startUndoSession` and every change made inside an open session leave
  `base` — the contents with every open session undone, which is what a restart
  restores — unchanged; only `commit` moves it, and then only up to a session
  at or below the revision it commits (`commit_stack_or_floor`).
- `rollback` is the fork loop `while (db->revision() >= block_num) db->undo()`.
  Once the stack is empty `undo` is the identity, so the loop's fate is decided
  within `stack.length` iterations (`undoWhile_stable`): it exits exactly when
  `floor < block_num` (`rollback_eq_none_iff`), landing on revision
  `block_num - 1` when it had anything to undo, and otherwise never exits
  (`undoWhile_spins`).
-/
import Mathlib.Order.Basic
import Mathlib.Data.Nat.Defs

namespace Chronicle

/-- Serialized contract ABI bytes, as `contract_abi_object::abi` holds them. -/
abbrev Bytes := List UInt8

/-- `state_object`: the receiver's singleton position record. -/
structure StateObject where
  head : Nat
  headId : Nat
  irreversible : Nat
  irreversibleId : Nat
  deriving DecidableEq, Repr

/-- `received_block_object`: one received block position. -/
structure ReceivedBlock where
  blockIndex : Nat
  blockId : Nat
  deriving DecidableEq, Repr

/-- The three indexes of the receiver's database. `receivedBlocks` is kept in
the `by_blocknum` order; `contractAbis` is the `by_name` lookup of
`contract_abi_index`. Object ids are not modelled: no code path reads them. -/
structure Contents where
  state : Option StateObject
  receivedBlocks : List ReceivedBlock
  contractAbis : Nat → Option Bytes

/-- A freshly created database: every index empty. -/
def Contents.empty : Contents := ⟨none, [], fun _ => none⟩

/-- chainbase's `database`: the current contents, the revision, and the undo
stack, newest session first. A session never sits at revision 0 or below, so
the stack is never longer than the revision. -/
structure Store where
  contents : Contents
  revision : Nat
  stack : List Contents
  stack_le : stack.length ≤ revision

namespace Store

/-- A database opened on an empty directory. -/
def empty : Store := ⟨Contents.empty, 0, [], Nat.le_refl 0⟩

/-- `database::set_revision`. -/
def setRevision : Store → Nat → Except String Store
  | ⟨c, _, [], _⟩, n => .ok ⟨c, n, [], Nat.zero_le n⟩
  | _, _ => .error "cannot set revision while there is an existing undo stack"

/-- `database::start_undo_session(true)`: a session at the next revision that
remembers the current contents. The receiver's `push` keeps it on the stack. -/
def startUndoSession (db : Store) : Store :=
  ⟨db.contents, db.revision + 1, db.contents :: db.stack,
    Nat.succ_le_succ db.stack_le⟩

/-- `database::undo`: restore the top session's contents and drop it; nothing
happens on an empty stack. -/
def undo : Store → Store
  | db@⟨_, _, [], _⟩ => db
  | ⟨_, r, top :: rest, h⟩ => ⟨top, r - 1, rest, Nat.le_sub_one_of_lt h⟩

/-- `database::commit(n)`: every session at revision `n` or below becomes
permanent; the newest `revision - n` sessions stay undoable. -/
def commit (db : Store) (n : Nat) : Store :=
  ⟨db.contents, db.revision, db.stack.take (db.revision - n),
    Nat.le_trans (List.length_take_le' _ _) db.stack_le⟩

/-- A change of the contents: `create`, `modify` or `remove` on an index. -/
def modify (db : Store) (f : Contents → Contents) : Store :=
  ⟨f db.contents, db.revision, db.stack, db.stack_le⟩

/-- The revision below every open session: where undoing them all lands. -/
def floor (db : Store) : Nat := db.revision - db.stack.length

/-- The contents with every open session undone: what survives a restart. -/
def base (db : Store) : Contents := db.stack.getLastD db.contents

/-- `while (db->revision() >= b) db->undo();` for at most `fuel` iterations;
`none` when the condition still holds after them. -/
def undoWhile (b : Nat) : Nat → Store → Option Store
  | 0, db => if b ≤ db.revision then none else some db
  | fuel + 1, db => if b ≤ db.revision then undoWhile b fuel db.undo else some db

/-- `while (stack.size() > 0) db->undo();`, which runs once per open session. -/
def undoAll (db : Store) : Store := go db.stack.length db
where
  /-- `n` undos. -/
  go : Nat → Store → Store
    | 0, db => db
    | n + 1, db => go n db.undo

/-- The fork loop's outcome: `some` the store it exits with, `none` when it never
exits. After `stack.length` iterations `undo` no longer changes anything, so
that many decide it (`undoWhile_stable`). -/
def rollback (db : Store) (b : Nat) : Option Store := undoWhile b db.stack.length db

variable {db : Store} {b : Nat}

-- ============================================================ field lemmas

@[simp] theorem startUndoSession_contents : db.startUndoSession.contents = db.contents := rfl
@[simp] theorem startUndoSession_revision :
    db.startUndoSession.revision = db.revision + 1 := rfl
@[simp] theorem startUndoSession_stack :
    db.startUndoSession.stack = db.contents :: db.stack := rfl
@[simp] theorem modify_contents (f : Contents → Contents) :
    (db.modify f).contents = f db.contents := rfl
@[simp] theorem modify_revision (f : Contents → Contents) :
    (db.modify f).revision = db.revision := rfl
@[simp] theorem modify_stack (f : Contents → Contents) : (db.modify f).stack = db.stack := rfl
@[simp] theorem commit_contents (n : Nat) : (db.commit n).contents = db.contents := rfl
@[simp] theorem commit_revision (n : Nat) : (db.commit n).revision = db.revision := rfl
@[simp] theorem commit_stack (n : Nat) :
    (db.commit n).stack = db.stack.take (db.revision - n) := rfl
@[simp] theorem undo_stack : db.undo.stack = db.stack.tail := by
  rcases db with ⟨c, r, _ | ⟨top, rest⟩, h⟩ <;> rfl

theorem undo_of_nil (h : db.stack = []) : db.undo = db := by
  rcases db with ⟨c, r, _ | ⟨top, rest⟩, h'⟩
  · rfl
  · cases h

theorem undo_contents_of_cons {top : Contents} {rest : List Contents}
    (h : db.stack = top :: rest) : db.undo.contents = top := by
  rcases db with ⟨c, r, s, h'⟩
  subst h
  rfl

theorem undo_revision_of_cons {top : Contents} {rest : List Contents}
    (h : db.stack = top :: rest) : db.undo.revision = db.revision - 1 := by
  rcases db with ⟨c, r, s, h'⟩
  subst h
  rfl

theorem setRevision_eq_ok {db' : Store} {n : Nat} (h : db.setRevision n = .ok db') :
    db.stack = [] ∧ db'.contents = db.contents ∧ db'.revision = n ∧ db'.stack = [] := by
  rcases db with ⟨c, r, _ | ⟨top, rest⟩, h'⟩ <;> cases h
  exact ⟨rfl, rfl, rfl, rfl⟩

-- ============================================================ the base

/-- Undoing the top session keeps what lies beneath it. -/
@[simp] theorem undo_base : db.undo.base = db.base := by
  rcases db with ⟨c, r, _ | ⟨top, rest⟩, h⟩
  · rfl
  · exact (List.getLastD_cons c top rest).symm

/-- Opening a session keeps the base: it starts from the current contents. -/
@[simp] theorem startUndoSession_base : db.startUndoSession.base = db.base :=
  List.getLastD_cons _ _ _

/-- Changes made while a session is open do not reach the base. -/
theorem modify_base (f : Contents → Contents) (h : db.stack ≠ []) :
    (db.modify f).base = db.base := by
  obtain ⟨top, rest, hs⟩ := List.exists_cons_of_ne_nil h
  simp only [base, modify_stack, hs, List.getLastD_cons]

/-- A change that keeps the open sessions and the revision keeps the base and
the floor. -/
theorem base_floor_of_stack {db' : Store} (hs : db'.stack = db.stack)
    (hr : db'.revision = db.revision) (hne : db.stack ≠ []) :
    db'.base = db.base ∧ db'.floor = db.floor := by
  obtain ⟨top, rest, he⟩ := List.exists_cons_of_ne_nil hne
  refine ⟨?_, by simp only [floor, hs, hr]⟩
  simp only [base, hs, he, List.getLastD_cons]

/-- `commit(n)` either keeps every session, or leaves the floor at or below `n`. -/
theorem commit_stack_or_floor (n : Nat) :
    (db.commit n).stack = db.stack ∨ (db.commit n).floor ≤ n := by
  by_cases h : db.stack.length ≤ db.revision - n
  · exact .inl (List.take_of_length_le h)
  · right
    simp only [floor, commit_revision, commit_stack, List.length_take]
    omega

/-- A commit that keeps every open session, of which there is one, is at or
below the floor. -/
theorem le_floor_of_commit_stack {n : Nat} (hs : (db.commit n).stack = db.stack)
    (hne : db.stack ≠ []) : n ≤ db.floor := by
  have hlen := congrArg List.length hs
  have hpos : 0 < db.stack.length := List.length_pos.mpr hne
  simp only [commit_stack, List.length_take] at hlen
  simp only [floor]
  omega

@[simp] theorem undo_floor : db.undo.floor = db.floor := by
  rcases db with ⟨c, r, _ | ⟨top, rest⟩, h⟩
  · rfl
  · simp only [floor, undo, List.length_cons] at h ⊢
    omega

@[simp] theorem startUndoSession_floor : db.startUndoSession.floor = db.floor := by
  simp only [floor, startUndoSession, List.length_cons]
  omega

/-- Undoing every open session lands on the base, at the floor, with nothing
left to undo. -/
theorem undoAll_eq : db.undoAll.contents = db.base ∧ db.undoAll.revision = db.floor ∧
    db.undoAll.stack = [] := by
  obtain ⟨n, hn⟩ : ∃ n, db.stack.length = n := ⟨_, rfl⟩
  rw [undoAll, hn]
  induction n generalizing db with
  | zero =>
    have hs := List.eq_nil_of_length_eq_zero hn
    simp [undoAll.go, base, floor, hs]
  | succ n ih =>
    obtain ⟨top, rest, hs⟩ := List.exists_cons_of_length_eq_add_one hn
    have hlen : db.undo.stack.length = n := by simpa [hs] using hn
    rw [undoAll.go, ← undo_base, ← undo_floor]
    exact ih hlen

theorem undoAll_base_floor : db.undoAll.base = db.base ∧ db.undoAll.floor = db.floor := by
  obtain ⟨hc, hr, hs⟩ : db.undoAll.contents = db.base ∧ db.undoAll.revision = db.floor ∧
    db.undoAll.stack = [] := undoAll_eq
  simp only [base, floor, hs, hc, hr, List.getLastD_nil, List.length_nil, Nat.sub_zero, and_self]

-- ===================================================== the fork loop

/-- On an empty stack the loop body changes nothing, so a loop whose condition
holds there never exits, however long it runs. -/
theorem undoWhile_spins (hs : db.stack = []) (hb : b ≤ db.revision) :
    ∀ fuel, undoWhile b fuel db = none
  | 0 => by simp [undoWhile, hb]
  | fuel + 1 => by simp only [undoWhile, hb, if_true, undo_of_nil hs]; exact undoWhile_spins hs hb fuel

/-- Iterations past the stack's length change nothing: `rollback` is the loop's
outcome for every sufficient number of iterations. -/
theorem undoWhile_stable : ∀ (db : Store) (fuel : Nat), db.stack.length ≤ fuel →
    undoWhile b fuel db = rollback db b
  | db, 0, h => by
    rw [rollback, Nat.eq_zero_of_le_zero h]
  | db, fuel + 1, h => by
    rcases hs : db.stack with _ | ⟨top, rest⟩
    · by_cases hb : b ≤ db.revision
      · rw [undoWhile_spins hs hb, rollback, undoWhile_spins hs hb]
      · simp [rollback, hs, undoWhile, hb]
    · have hlen : db.undo.stack.length ≤ fuel := by
        simp only [undo_stack, hs, List.tail_cons]
        simp only [hs, List.length_cons] at h
        omega
      have hrec := undoWhile_stable db.undo fuel hlen
      have hr : rollback db b = if b ≤ db.revision then rollback db.undo b else some db := by
        simp only [rollback, hs, List.length_cons, undoWhile, undo_stack, List.tail_cons]
      rw [hr, undoWhile, hrec]

/-- A loop that exits within `fuel` iterations exits the same way given more. -/
theorem undoWhile_mono : ∀ {fuel fuel' : Nat} {db db' : Store}, fuel ≤ fuel' →
    undoWhile b fuel db = some db' → undoWhile b fuel' db = some db'
  | 0, fuel', db, _, _, h => by
    simp only [undoWhile] at h
    split at h
    · cases h
    · cases h; cases fuel' <;> simp [undoWhile, *]
  | _ + 1, 0, _, _, hle, _ => absurd hle (by omega)
  | fuel + 1, fuel' + 1, db, _, hle, h => by
    simp only [undoWhile] at h ⊢
    split at h
    · rw [if_pos ‹_›]; exact undoWhile_mono (by omega) h
    · rw [if_neg ‹_›]; exact h

/-- The fork loop never exits, whatever number of iterations it is given,
exactly when `rollback` says so. -/
theorem rollback_eq_none_iff_forever : rollback db b = none ↔ ∀ fuel, undoWhile b fuel db = none := by
  constructor
  · intro h fuel
    cases hw : undoWhile b fuel db with
    | none => rfl
    | some db' =>
      have := undoWhile_mono (Nat.le_max_left fuel db.stack.length) hw
      rw [undoWhile_stable db _ (Nat.le_max_right _ _), h] at this
      cases this
  · exact fun h => h _

/-- One turn of the fork loop: undo and go on while the condition holds. -/
theorem rollback_eq_ite : rollback db b = if b ≤ db.revision then rollback db.undo b else some db := by
  rcases hs : db.stack with _ | ⟨top, rest⟩
  · by_cases hb : b ≤ db.revision
    · simp only [rollback, hs, undo_of_nil hs, if_pos hb]
    · simp [rollback, hs, undoWhile, hb]
  · simp only [rollback, hs, List.length_cons, undoWhile, undo_stack, List.tail_cons]

/-- The fork loop exits exactly when the open sessions reach below `b`. -/
theorem rollback_eq_none_iff : rollback db b = none ↔ b ≤ db.floor := by
  obtain ⟨n, hn⟩ : ∃ n, db.stack.length = n := ⟨_, rfl⟩
  induction n generalizing db with
  | zero =>
    have hs := List.eq_nil_of_length_eq_zero hn
    have hf : db.floor = db.revision := by simp [floor, hs]
    rw [rollback, hn, hf]
    by_cases hb : b ≤ db.revision <;> simp [undoWhile, hb]
  | succ n ih =>
    rw [rollback_eq_ite]
    by_cases hb : b ≤ db.revision
    · rw [if_pos hb, ih (by simp [hn]), undo_floor]
    · have : db.floor ≤ db.revision := Nat.sub_le _ _
      simp only [hb, if_false, reduceCtorEq, false_iff]
      omega

/-- A property every `undo` keeps holds of the store the fork loop exits with. -/
theorem rollback_induction {P : Store → Prop} (hP : ∀ d, P d → P d.undo) {db' : Store}
    (h : P db) (hr : rollback db b = some db') : P db' := by
  obtain ⟨n, hn⟩ : ∃ n, db.stack.length = n := ⟨_, rfl⟩
  induction n generalizing db with
  | zero =>
    rw [rollback, hn, undoWhile] at hr
    split at hr
    · cases hr
    · cases hr; exact h
  | succ n ih =>
    rw [rollback_eq_ite] at hr
    split at hr
    · exact ih (hP _ h) hr (by simp [hn])
    · cases hr; exact h

/-- Where the fork loop exits: below `b`, and on `b - 1` exactly when it had to
undo anything. -/
theorem rollback_revision {db' : Store} (hr : rollback db b = some db') :
    db'.revision < b ∧ (b ≤ db.revision → db'.revision + 1 = b) := by
  obtain ⟨n, hn⟩ : ∃ n, db.stack.length = n := ⟨_, rfl⟩
  induction n generalizing db with
  | zero =>
    rw [rollback, hn, undoWhile] at hr
    split at hr
    · cases hr
    · cases hr; exact ⟨by omega, fun h => absurd h ‹_›⟩
  | succ n ih =>
    obtain ⟨top, rest, hs⟩ := List.exists_cons_of_length_eq_add_one hn
    rw [rollback_eq_ite] at hr
    split at hr
    · obtain ⟨hlt, hexact⟩ := ih hr (by simpa [hs] using hn)
      refine ⟨hlt, fun _ => ?_⟩
      by_cases hb' : b ≤ db.undo.revision
      · exact hexact hb'
      · rw [rollback_eq_ite, if_neg hb'] at hr
        cases hr
        have := db.stack_le
        rw [undo_revision_of_cons hs] at hb' ⊢
        omega
    · cases hr; exact ⟨by omega, fun h => absurd h ‹_›⟩

/-- The fork loop never moves the base. -/
theorem rollback_base {db' : Store} (hr : rollback db b = some db') : db'.base = db.base :=
  rollback_induction (P := fun d => d.base = db.base) (fun _ h => undo_base.trans h) rfl hr

theorem rollback_floor {db' : Store} (hr : rollback db b = some db') : db'.floor = db.floor :=
  rollback_induction (P := fun d => d.floor = db.floor) (fun _ h => undo_floor.trans h) rfl hr

-- ================================================ graded contents

/-- `Q c r` holds of every open session's remembered contents `c` at the
revision `r` just below that session. -/
def SessionsGraded (Q : Contents → Nat → Prop) : List Contents → Nat → Prop
  | [], _ => True
  | c :: rest, r => Q c (r - 1) ∧ SessionsGraded Q rest (r - 1)

/-- Nothing in the store is newer than its revision, for a notion of "newer"
`Q`: the current contents satisfy `Q` at the current revision and each
session's remembered contents at the revision it was opened from. -/
def Graded (Q : Contents → Nat → Prop) (db : Store) : Prop :=
  Q db.contents db.revision ∧ SessionsGraded Q db.stack db.revision

variable {Q : Contents → Nat → Prop}

theorem SessionsGraded.take : ∀ {l : List Contents} {r : Nat} (k : Nat),
    SessionsGraded Q l r → SessionsGraded Q (l.take k) r
  | [], _, _, _ => by simp [SessionsGraded]
  | _ :: _, _, 0, _ => by simp [SessionsGraded]
  | _ :: _, _, k + 1, ⟨hc, hrest⟩ => ⟨hc, SessionsGraded.take k hrest⟩

/-- The sessions `commit(n)` keeps lie above `n`. -/
theorem SessionsGraded.take_sub {n : Nat} : ∀ {l : List Contents} {r : Nat},
    SessionsGraded Q l r → SessionsGraded (fun c r' => Q c r' ∧ n ≤ r') (l.take (r - n)) r
  | [], _, _ => by simp [SessionsGraded]
  | c :: rest, r, ⟨hc, hrest⟩ => by
    obtain h0 | ⟨k, hk⟩ : r - n = 0 ∨ ∃ k, r - n = k + 1 :=
      (Nat.eq_zero_or_pos _).imp_right fun h => ⟨r - n - 1, by omega⟩
    · rw [h0]
      trivial
    · have hrest' := SessionsGraded.take_sub (n := n) hrest
      rw [show r - 1 - n = k by omega] at hrest'
      rw [hk, List.take_succ_cons]
      exact ⟨⟨hc, by omega⟩, hrest'⟩

theorem SessionsGraded.imp {Q' : Contents → Nat → Prop} (hQ : ∀ c r, Q c r → Q' c r) :
    ∀ {l : List Contents} {r : Nat}, SessionsGraded Q l r → SessionsGraded Q' l r
  | [], _, _ => trivial
  | _ :: _, _, ⟨htop, hrest⟩ => ⟨hQ _ _ htop, SessionsGraded.imp hQ hrest⟩

theorem Graded.imp {Q' : Contents → Nat → Prop} (hQ : ∀ c r, Q c r → Q' c r) (h : Graded Q db) :
    Graded Q' db :=
  ⟨hQ _ _ h.1, h.2.imp hQ⟩

theorem Graded.undo (h : Graded Q db) : Graded Q db.undo := by
  rcases db with ⟨c, r, _ | ⟨top, rest⟩, hle⟩
  · exact h
  · exact h.2

theorem Graded.startUndoSession (hQ : ∀ c r, Q c r → Q c (r + 1)) (h : Graded Q db) :
    Graded Q db.startUndoSession :=
  ⟨hQ _ _ h.1, by simpa [SessionsGraded] using h⟩

theorem Graded.commit (h : Graded Q db) (n : Nat) : Graded Q (db.commit n) :=
  ⟨h.1, h.2.take _⟩

theorem Graded.modify {f : Contents → Contents} (h : Graded Q db)
    (hf : Q (f db.contents) db.revision) : Graded Q (db.modify f) :=
  ⟨hf, h.2⟩

theorem Graded.rollback {db' : Store} (h : Graded Q db) (hr : db.rollback b = some db') :
    Graded Q db' :=
  rollback_induction (P := Graded Q) (fun _ => Graded.undo) h hr

/-- The base is graded at the floor: what a restart restores is no newer than
the revision it restores to. -/
theorem SessionsGraded.getLastD : ∀ {l : List Contents} {c : Contents} {r : Nat},
    Q c r → SessionsGraded Q l r → Q (l.getLastD c) (r - l.length)
  | [], _, _, hc, _ => hc
  | _ :: _, _, _, _, ⟨htop, hrest⟩ => by
    rw [List.getLastD_cons, List.length_cons, Nat.sub_add_eq, Nat.sub_right_comm]
    exact SessionsGraded.getLastD htop hrest

theorem Graded.base (h : Graded Q db) : Q db.base db.floor :=
  SessionsGraded.getLastD h.1 h.2

theorem Graded.undoAll (h : Graded Q db) : Graded Q db.undoAll := by
  obtain ⟨hc, hr, hs⟩ : db.undoAll.contents = db.base ∧ db.undoAll.revision = db.floor ∧
    db.undoAll.stack = [] := undoAll_eq
  refine ⟨?_, ?_⟩
  · rw [hc, hr]; exact h.base
  · rw [hs]; trivial

end Store

end Chronicle
