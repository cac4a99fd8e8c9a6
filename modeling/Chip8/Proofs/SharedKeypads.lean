import Chip8.SharedKeypads

/-!
# What a snapshot holds

Under its lock a keypad is written and copied key by key. A lock that keeps its promises lets in one
thread at a time, so a snapshot holds what the writes before it have left, all of each of them,
whichever handles they came through and whatever went on at other keypads.

* `Keypad.writeAll` : the keys after some writes, in order; `Keypad.get_writeAll` : the last write
  that says something about a key stands.
* `Keypad.write_eq` : a write, key by key, is the write as a whole.
* `KeyAccess.Follows` : the keys and the access under way follow from the writes that have ended;
  `KeyAccess.Follows.go_on` and `KeyAccess.Follows.come_to_end` keep it.
* `SharedKeypad.Follows` : the same of a keypad with its lock, which at most one access has.
* `SharedKeypads.writesTo` : the writes through clones of one handle.
* `SharedKeypads.Consistent`, `SharedKeypads.Consistent.perform` : **every snapshot holds what the
  writes before it have left**, whatever the threads do.
* `SharedKeypads.mem_of_perform`, `SharedKeypads.mem_of_outcome`,
  `SharedKeypads.perform_refused`, `SharedKeypads.handles_perform` : who has an access under way,
  what an access leaves at its end, what a refused write leaves, and what the handles share.
-/

namespace Chip8

/-! ### Writes, one after the other -/

/-- What a write puts at a key, if anything. -/
def KeyWrite.puts (k : Key) : KeyWrite → Option Bool
  | .set key pressed => if key = k then some pressed else none
  | .setAll keys => some (keys.get k)

namespace Keypad

variable {p q : Keypad}

theorem ext_get (h : ∀ k, p.get k = q.get k) : p = q := by
  obtain ⟨ps⟩ := p
  obtain ⟨qs⟩ := q
  rw [Keypad.mk.injEq]
  exact Vector.ext fun k hk => h ⟨k, hk⟩

/-- The keys after some writes, in order, from `p` on; a write that names no key does nothing. -/
def after (p : Keypad) (ws : List KeyWrite) : Keypad := ws.foldl (fun p w => (p.write w).getD p) p

/-- The keys after all of these writes. -/
def writeAll (ws : List KeyWrite) : Keypad := released.after ws

theorem writeAll_concat (ws : List KeyWrite) (w : KeyWrite) :
    writeAll (ws ++ [w]) = ((writeAll ws).write w).getD (writeAll ws) := by
  simp only [writeAll, after, List.foldl_append, List.foldl_cons, List.foldl_nil]

theorem get_released (k : Key) : released.get k = false := by
  simp [released, get]

theorem get_write (p : Keypad) (w : KeyWrite) (k : Key) :
    ((p.write w).getD p).get k = (w.puts k).getD (p.get k) := by
  cases w with
  | setAll keys => rfl
  | set key pressed =>
    simp only [write, KeyWrite.puts, Key.ofNat?]
    by_cases hkey : key < Key.count
    · rw [dif_pos hkey, Option.map_some, Option.getD_some, get_set]
      by_cases heq : key = k
      · rw [if_pos heq, if_pos (Fin.ext heq)]
        rfl
      · rw [if_neg heq, if_neg fun h => heq (congrArg Fin.val h)]
        rfl
    · have heq : key ≠ k := by
        rintro rfl
        exact hkey k.isLt
      rw [dif_neg hkey, if_neg heq]
      rfl

theorem get_after (p : Keypad) (ws : List KeyWrite) (k : Key) :
    (p.after ws).get k = (ws.filterMap (·.puts k)).getLast?.getD (p.get k) := by
  induction ws generalizing p with
  | nil => rfl
  | cons w ws ih =>
    have hrest : p.after (w :: ws) = ((p.write w).getD p).after ws := rfl
    rw [hrest, ih, get_write]
    -- what the first write says stands only if no later one says anything
    cases hw : w.puts k <;> cases hl : (ws.filterMap (·.puts k)).getLast? <;>
      simp [hw, List.getLast?_cons, hl]

/-- **The last write that says something about a key stands**; a key of which none says anything is
not pressed. -/
theorem get_writeAll (ws : List KeyWrite) (k : Key) :
    (writeAll ws).get k = (ws.filterMap (·.puts k)).getLast?.getD false := by
  rw [writeAll, get_after, get_released]

/-! ### Key by key -/

/-- Stores keys, one after the other. -/
def store (p : Keypad) : List (Key × Bool) → Keypad
  | [] => p
  | (k, pressed) :: todo => (p.set k pressed).store todo

theorem get_store_of_notMem {ks : List Key} {j : Key} (hj : j ∉ ks) (p : Keypad)
    (f : Key → Bool) : (p.store (ks.map fun k => (k, f k))).get j = p.get j := by
  induction ks generalizing p with
  | nil => rfl
  | cons k ks ih =>
    rw [List.mem_cons, not_or] at hj
    rw [List.map_cons, store, ih hj.2, get_set, if_neg (Ne.symm hj.1)]

theorem get_store_of_mem {ks : List Key} {j : Key} (hj : j ∈ ks) (p : Keypad)
    (f : Key → Bool) : (p.store (ks.map fun k => (k, f k))).get j = f j := by
  induction ks generalizing p with
  | nil => cases hj
  | cons k ks ih =>
    rw [List.map_cons, store]
    by_cases hmem : j ∈ ks
    · exact ih hmem _
    · obtain rfl : j = k := (List.mem_cons.1 hj).resolve_right hmem
      rw [get_store_of_notMem hmem, get_set, if_pos rfl]

/-- A write stores its keys, all of them; one that names no key is refused. -/
theorem write_eq (p : Keypad) (w : KeyWrite) : p.write w = w.cells.map p.store := by
  cases w with
  | set key pressed =>
    simp only [write, KeyWrite.cells]
    cases Key.ofNat? key <;> rfl
  | setAll keys =>
    rw [write, KeyWrite.cells, Option.map_some, Option.some.injEq]
    apply ext_get
    intro k
    exact (get_store_of_mem (List.mem_finRange k) p keys.get).symm

end Keypad

open Keypad (writeAll)

/-! ### One access -/

/-- The write that has come to its end. -/
def KeyOutcome.write? : KeyOutcome → Option KeyWrite
  | .wrote w => some w
  | .panicked _ | .took _ => none

namespace KeyAccess

/-- The keys of an access under way, after the writes that have come to their end: a write is as
good as done when its last keys are stored, and a snapshot has the keys that it has copied. -/
def Follows (keys : Keypad) (ws : List KeyWrite) : KeyAccess → Prop
  | .write w todo => keys.store todo = writeAll (ws ++ [w])
  | .panic _ => keys = writeAll ws
  | .snapshot copy todo => keys = writeAll ws ∧ ∀ k, k ∉ todo → copy.get k = keys.get k

/-- The access is a snapshot. -/
def copies : KeyAccess → Bool
  | .snapshot .. => true
  | .write .. | .panic _ => false

variable {access rest : KeyAccess} {keys after : Keypad} {ws : List KeyWrite} {outcome : KeyOutcome}

theorem follows_start {request : KeyRequest} (h : keys = writeAll ws) :
    request.start.Follows keys ws := by
  cases request with
  | snapshot => exact ⟨h, fun k hk => absurd (List.mem_finRange k) hk⟩
  | write w =>
    simp only [KeyRequest.start]
    cases hcells : w.cells with
    | none => exact h
    | some todo =>
      rw [Follows, Keypad.writeAll_concat, Keypad.write_eq, hcells, h]
      rfl

/-- An access that goes on still follows from the writes that have come to their end. -/
theorem Follows.go_on (h : access.Follows keys ws)
    (ha : access.advance keys = (after, .inl rest)) : rest.Follows after ws := by
  cases access with
  | write w todo => cases todo <;> cases ha; exact h
  | panic w => cases ha
  | snapshot copy todo =>
    obtain ⟨hkeys, hcopy⟩ : keys = writeAll ws ∧ ∀ k, k ∉ todo → copy.get k = keys.get k := h
    cases todo with
    | nil => cases ha
    | cons k todo =>
      cases ha
      refine ⟨hkeys, fun j hj => ?_⟩
      rw [Keypad.get_set]
      by_cases heq : k = j
      · rw [if_pos heq, heq]
      · rw [if_neg heq]
        exact hcopy j (by simp [Ne.symm heq, hj])

/-- **Nothing is lost or torn.**  When an access ends, the keys are what the writes have left, its
own included, and a snapshot is what they have left before it. -/
theorem Follows.come_to_end (h : access.Follows keys ws)
    (ha : access.advance keys = (after, .inr outcome)) :
    after = writeAll (ws ++ outcome.write?.toList) ∧
      ∀ copy, outcome = .took copy → copy = writeAll ws := by
  cases access with
  | write w todo => cases todo <;> cases ha; exact ⟨h, nofun⟩
  | panic w =>
    cases ha
    exact ⟨h.trans (congrArg writeAll (List.append_nil ws).symm), nofun⟩
  | snapshot copy todo =>
    obtain ⟨hkeys, hcopy⟩ : keys = writeAll ws ∧ ∀ k, k ∉ todo → copy.get k = keys.get k := h
    cases todo with
    | cons k todo => cases ha
    | nil =>
      cases ha
      have hall : copy = keys := Keypad.ext_get fun k => hcopy k List.not_mem_nil
      refine ⟨hkeys.trans (congrArg writeAll (List.append_nil ws).symm), fun other hother => ?_⟩
      rw [← KeyOutcome.took.inj hother, hall, hkeys]

theorem copies_of_advance (ha : access.advance keys = (after, .inl rest)) :
    rest.copies = access.copies := by
  cases access with
  | write w todo => cases todo <;> cases ha; rfl
  | panic w => cases ha
  | snapshot copy todo => cases todo <;> cases ha; rfl

theorem took_of_advance (ha : access.advance keys = (after, .inr outcome))
    (hcopies : access.copies = true) : ∃ copy, outcome = .took copy := by
  cases access with
  | write | panic => cases hcopies
  | snapshot copy todo => cases todo <;> cases ha; exact ⟨copy, rfl⟩

end KeyAccess

/-! ### One keypad -/

namespace SharedKeypad

/-- The keypad follows from the writes that have come to their end: its lock is free and it holds
what they have left, or one access is under way behind it. -/
inductive Follows {l : Lock} (ws : List KeyWrite) : SharedKeypad l → Prop
  | free {keys : Keypad} {lock : l.State} (hlock : ¬l.Held lock) (hkeys : keys = writeAll ws) :
    Follows ws { keys, lock, accesses := [] }
  | held {keys : Keypad} {lock : l.State} {handle : Nat} {access : KeyAccess}
    (hlock : l.Held lock) (haccess : access.Follows keys ws) :
    Follows ws { keys, lock, accesses := [(handle, access)] }

variable {l : Lock} {p q : SharedKeypad l} {ws : List KeyWrite} {handle turn : Nat}
  {access : KeyAccess} {outcome : KeyOutcome}

theorem Follows.accesses_eq_nil (h : p.Follows ws) (hfree : ¬l.Held p.lock) : p.accesses = [] := by
  cases h with
  | free => rfl
  | held hlock => exact absurd hlock hfree

theorem free_letGo (hl : l.Lawful) {lock : l.State} (h : l.Held lock) (outcome : KeyOutcome) :
    ¬l.Held (outcome.letGo l lock) := by
  cases outcome with
  | wrote | took => exact hl.free_release h
  | panicked => exact hl.free_unwind h

theorem Follows.enter (hl : l.Lawful) {request : KeyRequest} (h : p.Follows ws)
    (hq : p.enter handle request = some q) : q.Follows ws := by
  obtain ⟨lock, htake, rfl⟩ := Option.map_eq_some_iff.1 hq
  cases h with
  | free hlock hkeys => exact .held (hl.held_of_take htake) (KeyAccess.follows_start hkeys)
  | held hlock haccess => exact absurd hlock (Lock.not_held_of_take htake)

/-- **With each thing that a thread does**, the keypad still follows from the writes that have come
to their end. When an access ends, the lock is free, and a snapshot is what the writes have left. -/
theorem Follows.proceed (hl : l.Lawful) (h : p.Follows ws) (turn : Nat) :
    (p.proceed turn).1.Follows (ws ++ ((p.proceed turn).2.bind (·.2.write?)).toList) ∧
      ∀ handle outcome, (p.proceed turn).2 = some (handle, outcome) →
        ¬l.Held (p.proceed turn).1.lock ∧ ∀ keys, outcome = .took keys → keys = writeAll ws := by
  have hsame : p.Follows (ws ++ (none : Option KeyWrite).toList) := by
    rwa [Option.toList_none, List.append_nil]
  cases h with
  | free hlock hkeys => exact ⟨hsame, nofun⟩
  | @held keys lock handle access hlock haccess =>
    cases turn with
    | succ turn => exact ⟨hsame, nofun⟩
    | zero =>
      rcases ha : access.advance keys with ⟨after, rest | outcome⟩
      · have hgo := haccess.go_on ha
        simp only [SharedKeypad.proceed, List.getElem?_cons_zero, ha, List.set_cons_zero]
        exact ⟨.held hlock (by rwa [Option.bind_none, Option.toList_none, List.append_nil]), nofun⟩
      · obtain ⟨hkeys, htook⟩ := haccess.come_to_end ha
        have hfree := free_letGo hl hlock outcome
        simp only [SharedKeypad.proceed, List.getElem?_cons_zero, ha, List.eraseIdx_cons_zero]
        refine ⟨.free hfree hkeys, fun other ended hended => ?_⟩
        cases hended
        exact ⟨hfree, htook⟩

/-- Until it ends, an access goes through the same handle and is of the same kind. -/
theorem mem_of_proceed (h : (handle, access) ∈ (p.proceed turn).1.accesses) :
    ∃ a, (handle, a) ∈ p.accesses ∧ access.copies = a.copies := by
  unfold SharedKeypad.proceed at h
  split at h
  · exact ⟨access, h, rfl⟩
  · rename_i other a hmem
    split at h
    · rename_i keys rest ha
      rcases List.mem_or_eq_of_mem_set h with h | heq
      · exact ⟨access, h, rfl⟩
      · cases heq
        exact ⟨a, List.mem_of_getElem? hmem, KeyAccess.copies_of_advance ha⟩
    · exact ⟨access, List.mem_of_mem_eraseIdx h, rfl⟩

/-- What has come to its end was an access under way. -/
theorem mem_of_outcome (h : (p.proceed turn).2 = some (handle, outcome)) :
    ∃ a, (handle, a) ∈ p.accesses ∧ (a.copies = true → ∃ keys, outcome = .took keys) := by
  unfold SharedKeypad.proceed at h
  split at h
  · cases h
  · rename_i other a hmem
    split at h
    · cases h
    · rename_i keys ended ha
      cases h
      exact ⟨a, List.mem_of_getElem? hmem, KeyAccess.took_of_advance ha⟩

theorem accesses_of_enter {request : KeyRequest} (h : p.enter handle request = some q) :
    q.accesses = p.accesses ++ [(handle, request.start)] := by
  obtain ⟨lock, -, rfl⟩ := Option.map_eq_some_iff.1 h
  rfl

/-- A write that names no key takes the lock, and lets go of it again with no key changed. -/
theorem enter_refused (hl : l.Lawful) (handle : Nat) {w : KeyWrite} (hfree : ¬l.Held p.lock)
    (hnone : p.accesses = []) (hw : w.cells = none) :
    ∃ q lock, p.enter handle (.write w) = some q ∧ ¬l.Held lock ∧
      q.proceed 0 = ({ p with lock }, some (handle, .panicked w)) := by
  obtain ⟨taken, htake⟩ := Lock.exists_take hfree
  obtain ⟨keys, lock, accesses⟩ := p
  cases hnone
  refine ⟨{ keys, lock := taken, accesses := [(handle, .panic w)] }, l.unwind taken, ?_,
    hl.free_unwind (hl.held_of_take htake), rfl⟩
  simp only [SharedKeypad.enter, htake, KeyRequest.start, hw, Option.map_some, List.nil_append]

end SharedKeypad

/-! ### All keypads -/

namespace SharedKeypads

/-- The writes to keypad `i`, among what has been done through the given handles. -/
def writesTo (handles : List Nat) (i : Nat) (done : List (Nat × KeyOutcome)) : List KeyWrite :=
  done.filterMap fun e => if handles[e.1]? = some i then e.2.write? else none

variable {l : Lock} {s : SharedKeypads l} {done : List (Nat × KeyOutcome)}

theorem writesTo_append (handles : List Nat) (i : Nat) (done rest : List (Nat × KeyOutcome)) :
    writesTo handles i (done ++ rest) = writesTo handles i done ++ writesTo handles i rest :=
  List.filterMap_append ..

/-- A new handle changes nothing for what was done before. -/
theorem writesTo_concat {handles : List Nat} (h : ∀ e ∈ done, e.1 < handles.length) (i j : Nat) :
    writesTo (handles ++ [j]) i done = writesTo handles i done := by
  induction done with
  | nil => rfl
  | cons e done ih =>
    have hlt := h e List.mem_cons_self
    have hrest := ih fun e he => h e (List.mem_cons_of_mem _ he)
    unfold writesTo at hrest ⊢
    rw [List.filterMap_cons, List.filterMap_cons, hrest, List.getElem?_append_left hlt]

/-- What the keypads hold, and what has been copied of them, follows from what has been done. -/
structure Consistent (s : SharedKeypads l) (done : List (Nat × KeyOutcome)) : Prop where
  /-- An access to a keypad goes through a handle to it. -/
  handles : ∀ i handle access, (handle, access) ∈ (s.pads i).accesses →
    s.handles[handle]? = some i
  /-- What has been done went through handles that there are. -/
  bounded : ∀ e ∈ done, e.1 < s.handles.length
  pads : ∀ i, (s.pads i).Follows (writesTo s.handles i done)
  /-- A snapshot holds what the writes before it have left. -/
  snapshots : ∀ before handle keys, before ++ [(handle, .took keys)] <+: done →
    ∃ i, s.handles[handle]? = some i ∧ keys = writeAll (writesTo s.handles i before)

namespace Consistent

theorem addHandle (h : s.Consistent done) (j : Nat) : (s.addHandle j).Consistent done where
  handles i handle access hmem := by
    have hold := h.handles i handle access hmem
    obtain ⟨hlt, -⟩ := List.getElem?_eq_some_iff.1 hold
    exact (List.getElem?_append_left hlt).trans hold
  bounded e he := by
    simp only [SharedKeypads.addHandle, List.length_append]
    exact Nat.lt_add_right _ (h.bounded e he)
  pads i := by
    simp only [SharedKeypads.addHandle, writesTo_concat h.bounded]
    exact h.pads i
  snapshots before handle keys hbefore := by
    obtain ⟨i, hi, hkeys⟩ := h.snapshots before handle keys hbefore
    obtain ⟨hlt, -⟩ := List.getElem?_eq_some_iff.1 hi
    have hbounded : ∀ e ∈ before, e.1 < s.handles.length := fun e he =>
      h.bounded e (hbefore.subset (List.mem_append_left _ he))
    refine ⟨i, (List.getElem?_append_left hlt).trans hi, ?_⟩
    rw [SharedKeypads.addHandle, writesTo_concat hbounded]
    exact hkeys

theorem handles_put (h : s.Consistent done) {i : Nat} {p : SharedKeypad l}
    (hp : ∀ handle access, (handle, access) ∈ p.accesses → s.handles[handle]? = some i)
    (j handle : Nat) (access : KeyAccess)
    (hmem : (handle, access) ∈ ((s.put i p).pads j).accesses) : s.handles[handle]? = some j := by
  simp only [SharedKeypads.put] at hmem
  split at hmem
  · rename_i heq
    rw [heq]
    exact hp handle access hmem
  · exact h.handles j handle access hmem

/-- Another keypad in the place of one, accessed through handles to it, and following from the same
writes. -/
theorem put (h : s.Consistent done) {i : Nat} {p : SharedKeypad l}
    (hhandles : ∀ handle access, (handle, access) ∈ p.accesses → s.handles[handle]? = some i)
    (hp : p.Follows (writesTo s.handles i done)) : (s.put i p).Consistent done where
  handles := h.handles_put hhandles
  bounded := h.bounded
  pads j := by
    simp only [SharedKeypads.put]
    split
    · rename_i heq
      rw [heq]
      exact hp
    · exact h.pads j
  snapshots := h.snapshots

theorem enter (hl : l.Lawful) {t : SharedKeypads l} {handle : Nat} {request : KeyRequest}
    (h : s.Consistent done) (ht : s.enter handle request = some t) : t.Consistent done := by
  unfold SharedKeypads.enter at ht
  split at ht
  · cases ht
  · rename_i i hi
    obtain ⟨p, hp, rfl⟩ := Option.map_eq_some_iff.1 ht
    refine h.put (fun other access hmem => ?_) ((h.pads i).enter hl hp)
    rw [SharedKeypad.accesses_of_enter hp, List.mem_append, List.mem_singleton] at hmem
    rcases hmem with hmem | heq
    · exact h.handles i other access hmem
    · cases heq
      exact hi

theorem proceed (hl : l.Lawful) (h : s.Consistent done) (i turn : Nat) :
    (s.proceed i turn).1.Consistent (done ++ (s.proceed i turn).2.toList) := by
  obtain ⟨hfollows, hended⟩ := (h.pads i).proceed hl turn
  have hhandles : ∀ handle access, (handle, access) ∈ ((s.pads i).proceed turn).1.accesses →
      s.handles[handle]? = some i := by
    intro handle access hmem
    obtain ⟨before, hbefore, -⟩ := SharedKeypad.mem_of_proceed hmem
    exact h.handles i handle before hbefore
  have hstate : (s.proceed i turn).1 = s.put i ((s.pads i).proceed turn).1 := rfl
  have houtcome : (s.proceed i turn).2 = ((s.pads i).proceed turn).2 := rfl
  rw [hstate, houtcome]
  cases hend : ((s.pads i).proceed turn).2 with
  | none =>
    rw [hend, Option.bind_none, Option.toList_none, List.append_nil] at hfollows
    rw [Option.toList_none, List.append_nil]
    exact h.put hhandles hfollows
  | some e =>
    -- the access that has ended was one to keypad `i`
    obtain ⟨handle, outcome⟩ := e
    obtain ⟨access, hmem, -⟩ := SharedKeypad.mem_of_outcome hend
    have hi := h.handles i handle access hmem
    rw [hend, Option.bind_some] at hfollows
    rw [Option.toList_some]
    refine ⟨h.handles_put hhandles, ?_, fun j => ?_, fun before other keys hbefore => ?_⟩
    · intro e he
      rcases List.mem_append.1 he with he | he
      · exact h.bounded e he
      · obtain ⟨hlt, -⟩ := List.getElem?_eq_some_iff.1 hi
        rwa [List.mem_singleton.1 he]
    · simp only [SharedKeypads.put, writesTo_append]
      split
      · rename_i heq
        rw [heq]
        have hwrite : writesTo s.handles i [(handle, outcome)] = outcome.write?.toList := by
          simp only [writesTo, List.filterMap_cons, hi, if_true, List.filterMap_nil]
          cases outcome.write? <;> rfl
        rw [hwrite]
        exact hfollows
      · rename_i hne
        have hwrite : writesTo s.handles j [(handle, outcome)] = [] := by
          simp only [writesTo, List.filterMap_cons, hi, Option.some.injEq, Ne.symm hne, if_false,
            List.filterMap_nil]
        rw [hwrite, List.append_nil]
        exact h.pads j
    · rcases List.prefix_concat_iff.1 hbefore with heq | hbefore
      · obtain ⟨rfl, hlast⟩ := List.append_inj' heq rfl
        cases hlast
        exact ⟨i, hi, (hended _ _ hend).2 _ rfl⟩
      · exact h.snapshots before other keys hbefore

theorem perform (hl : l.Lawful) (h : s.Consistent done) (event : Event) :
    (s.perform event).1.Consistent (done ++ (s.perform event).2.toList) := by
  have hsame : ∀ {t : SharedKeypads l}, t.Consistent done →
      t.Consistent (done ++ (none : Option (Nat × KeyOutcome)).toList) := by
    intro t ht
    rwa [Option.toList_none, List.append_nil]
  cases event with
  | create => exact hsame (h.addHandle _)
  | clone handle =>
    simp only [SharedKeypads.perform]
    cases s.handles[handle]? with
    | none => exact hsame h
    | some i => exact hsame (h.addHandle i)
  | enter handle request =>
    simp only [SharedKeypads.perform]
    cases ht : s.enter handle request with
    | none => exact hsame h
    | some t => exact hsame (h.enter hl ht)
  | proceed i turn => exact h.proceed hl i turn

end Consistent

/-! ### Accesses under way -/

variable {handle i : Nat} {event : Event}

theorem mem_of_enter {t : SharedKeypads l} {request : KeyRequest} {other : Nat}
    {access : KeyAccess} (ht : s.enter handle request = some t)
    (h : (other, access) ∈ (t.pads i).accesses) :
    (other, access) ∈ (s.pads i).accesses ∨ (other, access) = (handle, request.start) := by
  unfold enter at ht
  split at ht
  · cases ht
  · rename_i j hj
    obtain ⟨p, hp, rfl⟩ := Option.map_eq_some_iff.1 ht
    simp only [put] at h
    split at h
    · rename_i heq
      rwa [SharedKeypad.accesses_of_enter hp, List.mem_append, List.mem_singleton, ← heq] at h
    · exact .inl h

/-- An access through a handle begins only with an event that enters through it. -/
theorem mem_of_perform {access : KeyAccess} (hevent : event.enters handle = false)
    (h : (handle, access) ∈ ((s.perform event).1.pads i).accesses) :
    ∃ a, (handle, a) ∈ (s.pads i).accesses ∧ access.copies = a.copies := by
  cases event with
  | create => exact ⟨access, h, rfl⟩
  | clone other =>
    simp only [perform] at h
    split at h <;> exact ⟨access, h, rfl⟩
  | enter other request =>
    have hne : other ≠ handle := of_decide_eq_false hevent
    simp only [perform] at h
    cases ht : s.enter other request with
    | none =>
      rw [ht] at h
      exact ⟨access, h, rfl⟩
    | some t =>
      rw [ht] at h
      rcases mem_of_enter ht h with h | heq
      · exact ⟨access, h, rfl⟩
      · cases heq
        exact absurd rfl hne
  | proceed j turn =>
    simp only [perform, proceed, put] at h
    split at h
    · rename_i heq
      rw [heq]
      exact SharedKeypad.mem_of_proceed h
    · exact ⟨access, h, rfl⟩

/-- What comes to its end was an access to a keypad, whose lock is free then. -/
theorem mem_of_outcome (hl : l.Lawful) (hs : s.Consistent done) {outcome : KeyOutcome}
    (h : (s.perform event).2 = some (handle, outcome)) :
    ∃ i a, ((s.perform event).1.pads i).accesses = [] ∧
      ¬l.Held ((s.perform event).1.pads i).lock ∧ (handle, a) ∈ (s.pads i).accesses ∧
      (a.copies = true → ∃ keys, outcome = .took keys) := by
  cases event with
  | create => cases h
  | clone other =>
    simp only [perform] at h
    split at h <;> cases h
  | enter other request => cases h
  | proceed i turn =>
    obtain ⟨a, hmem, htook⟩ := SharedKeypad.mem_of_outcome (p := s.pads i) h
    obtain ⟨hfollows, hended⟩ := (hs.pads i).proceed hl turn
    obtain ⟨hfree, -⟩ := hended handle outcome h
    have hpad : (s.perform (.proceed i turn)).1.pads i = ((s.pads i).proceed turn).1 := if_pos rfl
    refine ⟨i, a, ?_, ?_, hmem, htook⟩
    · rw [hpad]
      exact hfollows.accesses_eq_nil hfree
    · rwa [hpad]

/-! ### Refused writes -/

@[simp] theorem put_put (s : SharedKeypads l) (i : Nat) (p q : SharedKeypad l) :
    (s.put i p).put i q = s.put i q := by
  simp only [put, SharedKeypads.mk.injEq, and_true]
  funext j
  split <;> rfl

/-- A write that names no key takes the lock, and lets go of it again with no key changed. -/
theorem perform_refused (hl : l.Lawful) {w : KeyWrite} (hi : s.handles[handle]? = some i)
    (hfree : ¬l.Held (s.pads i).lock) (hnone : (s.pads i).accesses = []) (hw : w.cells = none) :
    ∃ t lock, s.perform (.enter handle (.write w)) = (t, none) ∧ ¬l.Held lock ∧
      t.perform (.proceed i 0) =
        (s.put i { s.pads i with lock }, some (handle, .panicked w)) := by
  obtain ⟨p, lock, henter, hlock, hproceed⟩ :=
    SharedKeypad.enter_refused hl handle hfree hnone hw
  have hpad : (s.put i p).pads i = p := if_pos rfl
  refine ⟨s.put i p, lock, ?_, hlock, ?_⟩
  · simp only [perform, enter, hi, henter, Option.map_some, Option.getD_some]
  · simp only [perform, proceed, hpad, hproceed, put_put]

/-! ### Handles -/

/-- A handle keeps its keypad. -/
theorem handles_perform (s : SharedKeypads l) (event : Event) :
    s.handles <+: (s.perform event).1.handles := by
  cases event with
  | create => exact List.prefix_append ..
  | clone other =>
    simp only [perform]
    split
    · exact List.prefix_append ..
    · exact List.prefix_rfl
  | enter other request =>
    simp only [perform, enter]
    split
    · exact List.prefix_rfl
    · rename_i j hj
      cases (s.pads j).enter other request <;> exact List.prefix_rfl
  | proceed j turn => exact List.prefix_rfl

end SharedKeypads

end Chip8
