import Brtos.System

/-! The scheduler's data as sets and functions: who is installed with which priority, who is
ready, who waits where and who holds what. The services act on it by a handful of moves. -/
namespace Brtos

/-- What the bitmaps, vectors and control blocks stand for. -/
structure View where
  installed : ℕ → Prop
  slot : ℕ → ℕ
  prio : ℕ → ℕ
  wake : ℕ → ℕ
  ready : Finset ℕ
  waiting : Obj → Finset ℕ
  count : Obj → ℕ
  created : Obj → Prop
  mutex : ℕ → BrtosMutex
  point : ℕ → Point
  inst : ℕ → ℕ
  held : ℕ → List ℕ

namespace View
variable (v : View)

abbrev ceiling (m : ℕ) : ℕ := (v.mutex m).osMaxPriority
abbrev owner (m : ℕ) : ℕ := (v.mutex m).osEventOwner
abbrev saved (m : ℕ) : ℕ := (v.mutex m).osOriginalPriority
abbrev state (m : ℕ) : ℕ := (v.mutex m).osEventState

/-- The highest waiting priority. -/
def IsTop (o : Obj) (p : ℕ) : Prop := p ∈ v.waiting o ∧ ∀ q ∈ v.waiting o, q ≤ p

/-- No task is suspended on the event. -/
def Unattended (o : Obj) : Prop := ∀ t p w, v.point t ≠ .pend o p w

/-- The priority that a release of `m` by `t` goes back to is still a priority of `t`: the one it
was installed with, or the ceiling of another mutex that it holds. -/
def Restorable (t m : ℕ) : Prop :=
  v.saved m = v.inst t ∨
    ∃ n ∈ v.held t, n ≠ m ∧ 0 < v.ceiling n ∧ v.saved m = v.ceiling n ∧ v.slot (v.ceiling n) = t

/-! ### The moves -/

def enroll (t p : ℕ) (noTimeout : ℕ) : View :=
  { v with
    installed := fun u => v.installed u ∨ u = t
    slot := Function.update v.slot p t
    prio := Function.update v.prio t p
    wake := Function.update v.wake t noTimeout
    ready := insert p v.ready
    inst := Function.update v.inst t p }

def reserve (p : ℕ) : View := { v with slot := Function.update v.slot p mutexPrio }

def establish (o : Obj) : View :=
  { v with
    created := fun q => v.created q ∨ q = o
    waiting := Function.update v.waiting o ∅
    count := Function.update v.count o 0 }

def establishMutex (m c : ℕ) : View :=
  { v.establish (.mutex m) with
    mutex := Function.update v.mutex m { v.mutex m with
      osEventState := availableResource, osMaxPriority := c } }

def abolish (o : Obj) : View :=
  { v with
    created := fun q => v.created q ∧ q ≠ o
    waiting := Function.update v.waiting o ∅
    count := Function.update v.count o 0 }

def abolishMutex (m : ℕ) : View :=
  { v.abolish (.mutex m) with mutex := Function.update v.mutex m ⟨0,0,0,0⟩ }

def sleep (t : ℕ) (o : Obj) (timeWait until_ : ℕ) : View :=
  { v with
    waiting := Function.update v.waiting o (insert (v.prio t) (v.waiting o))
    count := Function.update v.count o ((v.count o+1)%256)
    ready := v.ready.erase (v.prio t)
    wake := Function.update v.wake t until_
    point := Function.update v.point t (.pend o (v.prio t) timeWait) }

def nap (t timeWait until_ : ℕ) : View :=
  { v with
    ready := v.ready.erase (v.prio t)
    wake := Function.update v.wake t until_
    point := Function.update v.point t (.delay timeWait) }

def rouse (o : Obj) (p : ℕ) : View :=
  { v with
    waiting := Function.update v.waiting o ((v.waiting o).erase p)
    count := Function.update v.count o ((v.count o+255)%256)
    ready := insert p v.ready }

def expire (t exitByTimeout : ℕ) : View :=
  { v with
    ready := insert (v.prio t) v.ready
    wake := Function.update v.wake t exitByTimeout }

def goOn (t until_ : ℕ) : View :=
  { v with
    wake := Function.update v.wake t until_
    point := Function.update v.point t .run }

def giveUp (t : ℕ) (o : Obj) (p : ℕ) : View :=
  { v with
    waiting := Function.update v.waiting o ((v.waiting o).erase p)
    count := Function.update v.count o ((v.count o+255)%256)
    point := Function.update v.point t .run }

/-- The mutex is entered among those that the task holds. -/
def gain (t m : ℕ) : View :=
  { v with
    mutex := Function.update v.mutex m { v.mutex m with
      osEventState := busyResource, osEventOwner := t }
    held := Function.update v.held t (m :: v.held t) }

def changePrio (t p : ℕ) : View :=
  { v with
    prio := Function.update v.prio t p
    ready := insert p (v.ready.erase (v.prio t)) }

def save (t m : ℕ) : View :=
  { v with mutex := Function.update v.mutex m { v.mutex m with osOriginalPriority := v.prio t } }

/-- The owner's move up to the ceiling. -/
def lift (t m : ℕ) : View :=
  if v.prio t < v.ceiling m then
    { v.changePrio t (v.ceiling m) with slot := Function.update v.slot (v.ceiling m) t }
  else v

def restore (t m : ℕ) : View := if v.prio t = v.saved m then v else v.changePrio t (v.saved m)

/-- The mutex leaves those that the task holds, and nobody owns it. -/
def drop (t m : ℕ) : View :=
  { v with
    mutex := Function.update v.mutex m { v.mutex m with
      osEventState := availableResource, osEventOwner := 0 }
    slot := if 0 < v.ceiling m then Function.update v.slot (v.ceiling m) mutexPrio else v.slot
    held := Function.update v.held t ((v.held t).erase m) }

/-- The mutex leaves those that the task holds and belongs to the waiting task at `p`. -/
def handOver (t m p : ℕ) : View :=
  { v with
    mutex := Function.update v.mutex m { v.mutex m with osEventOwner := v.slot p }
    waiting := Function.update v.waiting (.mutex m) ((v.waiting (.mutex m)).erase p)
    count := Function.update v.count (.mutex m) ((v.count (.mutex m)+255)%256)
    ready := insert p v.ready
    held := Function.update v.held t ((v.held t).erase m) }

def take (t m : ℕ) : View := ((v.gain t m).save t m).lift t m

def obtain_ (t m until_ : ℕ) : View := (((v.goOn t until_).gain t m).save t m).lift t m

/-! The moves between priorities change nothing but priorities, the ready set and a slot. -/

@[simp] theorem lift_installed (t m : ℕ) : (v.lift t m).installed = v.installed := by
  unfold lift
  split_ifs <;> rfl

@[simp] theorem lift_wake (t m : ℕ) : (v.lift t m).wake = v.wake := by
  unfold lift
  split_ifs <;> rfl

@[simp] theorem lift_waiting (t m : ℕ) : (v.lift t m).waiting = v.waiting := by
  unfold lift
  split_ifs <;> rfl

@[simp] theorem lift_count (t m : ℕ) : (v.lift t m).count = v.count := by
  unfold lift
  split_ifs <;> rfl

@[simp] theorem lift_created (t m : ℕ) : (v.lift t m).created = v.created := by
  unfold lift
  split_ifs <;> rfl

@[simp] theorem lift_mutex (t m : ℕ) : (v.lift t m).mutex = v.mutex := by
  unfold lift
  split_ifs <;> rfl

@[simp] theorem lift_point (t m : ℕ) : (v.lift t m).point = v.point := by
  unfold lift
  split_ifs <;> rfl

@[simp] theorem lift_inst (t m : ℕ) : (v.lift t m).inst = v.inst := by
  unfold lift
  split_ifs <;> rfl

@[simp] theorem lift_held (t m : ℕ) : (v.lift t m).held = v.held := by
  unfold lift
  split_ifs <;> rfl

theorem lift_slot (t m : ℕ) {p : ℕ} (hp : p ≠ v.ceiling m) : (v.lift t m).slot p = v.slot p := by
  unfold lift
  split_ifs
  · exact Function.update_of_ne hp _ _
  · rfl

@[simp] theorem restore_installed (t m : ℕ) : (v.restore t m).installed = v.installed := by
  unfold restore
  split_ifs <;> rfl

@[simp] theorem restore_slot (t m : ℕ) : (v.restore t m).slot = v.slot := by
  unfold restore
  split_ifs <;> rfl

@[simp] theorem restore_wake (t m : ℕ) : (v.restore t m).wake = v.wake := by
  unfold restore
  split_ifs <;> rfl

@[simp] theorem restore_waiting (t m : ℕ) : (v.restore t m).waiting = v.waiting := by
  unfold restore
  split_ifs <;> rfl

@[simp] theorem restore_count (t m : ℕ) : (v.restore t m).count = v.count := by
  unfold restore
  split_ifs <;> rfl

@[simp] theorem restore_created (t m : ℕ) : (v.restore t m).created = v.created := by
  unfold restore
  split_ifs <;> rfl

@[simp] theorem restore_mutex (t m : ℕ) : (v.restore t m).mutex = v.mutex := by
  unfold restore
  split_ifs <;> rfl

@[simp] theorem restore_point (t m : ℕ) : (v.restore t m).point = v.point := by
  unfold restore
  split_ifs <;> rfl

@[simp] theorem restore_inst (t m : ℕ) : (v.restore t m).inst = v.inst := by
  unfold restore
  split_ifs <;> rfl

@[simp] theorem restore_held (t m : ℕ) : (v.restore t m).held = v.held := by
  unfold restore
  split_ifs <;> rfl

/-! What the mutex moves do to the ceilings and to the saved priorities. -/

theorem take_saved (t m : ℕ) : (v.take t m).saved = Function.update v.saved m (v.prio t) := by
  funext n
  by_cases e : n = m <;> simp [take,save,gain,saved,e]

theorem take_ceiling (t m : ℕ) : (v.take t m).ceiling = v.ceiling := by
  funext n
  by_cases e : n = m <;> simp [take,save,gain,ceiling,e]

theorem take_held (t m : ℕ) : (v.take t m).held = Function.update v.held t (m :: v.held t) :=
  lift_held _ t m

theorem take_inst (t m : ℕ) : (v.take t m).inst = v.inst := lift_inst _ t m

theorem take_slot (t m : ℕ) {p : ℕ} (hp : p ≠ v.ceiling m) : (v.take t m).slot p = v.slot p := by
  refine lift_slot _ t m ?_
  simpa [save,gain,ceiling] using hp

theorem take_prio (t m : ℕ) :
    (v.take t m).prio = Function.update v.prio t (max (v.ceiling m) (v.prio t)) := by
  have hc : ((v.gain t m).save t m).ceiling m = v.ceiling m := by simp [save,gain,ceiling]
  simp only [take,lift,hc]
  by_cases h : v.prio t < v.ceiling m
  · rw [if_pos (show ((v.gain t m).save t m).prio t < v.ceiling m from h),max_eq_left h.le]
    rfl
  · rw [if_neg (show ¬ ((v.gain t m).save t m).prio t < v.ceiling m from h),
      max_eq_right (not_lt.mp h),Function.update_eq_self]
    rfl

/-- A mutex that raises its new holder gives it the slot of its ceiling. -/
theorem take_slot_self (t m : ℕ) (h : v.prio t < v.ceiling m) :
    (v.take t m).slot (v.ceiling m) = t := by
  have hc : ((v.gain t m).save t m).ceiling m = v.ceiling m := by simp [save,gain,ceiling]
  simp only [take,lift,hc]
  rw [if_pos (show ((v.gain t m).save t m).prio t < v.ceiling m from h)]
  exact Function.update_self _ _ _

theorem restore_prio (t m : ℕ) : (v.restore t m).prio = Function.update v.prio t (v.saved m) := by
  unfold restore
  split_ifs with h
  · rw [← h,Function.update_eq_self]
  · rfl

theorem release_saved (t m : ℕ) : ((v.restore t m).drop t m).saved = v.saved := by
  funext n
  by_cases e : n = m <;> simp [drop,saved,e]

theorem release_ceiling (t m : ℕ) : ((v.restore t m).drop t m).ceiling = v.ceiling := by
  funext n
  by_cases e : n = m <;> simp [drop,ceiling,e]

theorem release_held (t m : ℕ) :
    ((v.restore t m).drop t m).held = Function.update v.held t ((v.held t).erase m) := by
  simp [drop]

theorem release_inst (t m : ℕ) : ((v.restore t m).drop t m).inst = v.inst := v.restore_inst t m

theorem release_slot (t m : ℕ) {p : ℕ} (hp : p ≠ v.ceiling m) :
    ((v.restore t m).drop t m).slot p = v.slot p := by
  have hc : (v.restore t m).ceiling m = v.ceiling m := by simp [ceiling]
  simp only [drop,hc]
  split_ifs
  · rw [Function.update_of_ne hp,restore_slot]
  · rw [restore_slot]

theorem handOver_saved (t m p : ℕ) : ((v.restore t m).handOver t m p).saved = v.saved := by
  funext n
  by_cases e : n = m <;> simp [handOver,saved,e]

theorem handOver_ceiling (t m p : ℕ) : ((v.restore t m).handOver t m p).ceiling = v.ceiling := by
  funext n
  by_cases e : n = m <;> simp [handOver,ceiling,e]

theorem handOver_held (t m p : ℕ) : ((v.restore t m).handOver t m p).held =
    Function.update v.held t ((v.held t).erase m) := by
  simp [handOver]

theorem handOver_inst (t m p : ℕ) : ((v.restore t m).handOver t m p).inst = v.inst :=
  v.restore_inst t m

theorem handOver_slot (t m p : ℕ) : ((v.restore t m).handOver t m p).slot = v.slot :=
  v.restore_slot t m

/-- What a class of runs asks of the mutex calls of task `t` on mutex `m`, and of the
installation of a task with priority `p`. -/
structure Policy where
  acquire (v : View) (t m : ℕ) : Prop
  release (v : View) (t m : ℕ) : Prop
  install (v : View) (p : ℕ) : Prop := True

/-- The moves that the services make, each with the conditions under which they make it. -/
inductive Move (cfg : Config) (P : Policy) (v : View) : View → Prop
  | enroll {t p : ℕ} (fresh : ¬ v.installed t) (range : 1 ≤ t ∧ t ≤ 32) (lt : p < cfg.width)
      (free : p ≠ 0 → v.slot p = emptyPrio) (idle : p = 0 → ∀ u, v.installed u → v.inst u ≠ 0)
      (met : P.install v p) : Move cfg P v (v.enroll t p cfg.noTimeout)
  | reserve {p : ℕ} (free : v.slot p = emptyPrio) : Move cfg P v (v.reserve p)
  | establish {o : Obj} (unused : v.Unattended o) (other : ∀ m, o ≠ .mutex m) :
      Move cfg P v (v.establish o)
  | establishMutex {m c : ℕ} (unused : ¬ v.created (.mutex m)) (lt : c < cfg.width)
      (reserved : 0 < c → v.slot c = mutexPrio)
      (apart : 0 < c → (∀ u, v.installed u → v.inst u ≠ c) ∧ ∀ n, v.ceiling n ≠ c) :
      Move cfg P v (v.establishMutex m c)
  | abolish {o : Obj} (unused : v.Unattended o) (other : ∀ m, o ≠ .mutex m) :
      Move cfg P v (v.abolish o)
  | abolishMutex {m : ℕ} (unused : v.Unattended (.mutex m)) (free : v.owner m = 0) :
      Move cfg P v (v.abolishMutex m)
  | sleep {t w d : ℕ} {o : Obj} (inst : v.installed t) (idle : v.inst t ≠ 0)
      (run : v.point t = .run) (created : v.created o)
      (busy : ∀ m, o = .mutex m → v.owner m ≠ t ∧ v.state m ≠ availableResource)
      (met : ∀ m, o = .mutex m → P.acquire v t m)
      (forever : w = 0 → d = cfg.noTimeout) :
      Move cfg P v (v.sleep t o w d)
  | nap {t w d : ℕ} (inst : v.installed t) (idle : v.inst t ≠ 0) (run : v.point t = .run) :
      Move cfg P v (v.nap t w d)
  | rouse {o : Obj} {p : ℕ} (top : v.IsTop o p) (other : ∀ m, o ≠ .mutex m) :
      Move cfg P v (v.rouse o p)
  | expire {t : ℕ} (inst : v.installed t) (due : v.wake t < cfg.tickCountOverflow) :
      Move cfg P v (v.expire t cfg.exitByTimeout)
  | goOn {t p w d : ℕ} {o : Obj} (point : v.point t = .pend o p w) (other : ∀ m, o ≠ .mutex m)
      (selected : p ∉ v.waiting o) (late : cfg.tickCountOverflow ≤ d) :
      Move cfg P v (v.goOn t d)
  | wakeNap {t w : ℕ} (point : v.point t = .delay w) (ready : v.prio t ∈ v.ready) :
      Move cfg P v (v.goOn t (v.wake t))
  | giveUp {t p w : ℕ} {o : Obj} (point : v.point t = .pend o p w) (waits : p ∈ v.waiting o)
      (late : v.wake t = cfg.exitByTimeout) : Move cfg P v (v.giveUp t o p)
  | take {t m : ℕ} (inst : v.installed t) (idle : v.inst t ≠ 0) (run : v.point t = .run)
      (created : v.created (.mutex m)) (free : v.state m = availableResource)
      (met : P.acquire v t m) :
      Move cfg P v (v.take t m)
  | obtain {t m p w d : ℕ} (point : v.point t = .pend (.mutex m) p w)
      (selected : p ∉ v.waiting (.mutex m)) (late : cfg.tickCountOverflow ≤ d) :
      Move cfg P v (v.obtain_ t m d)
  | release {t m : ℕ} (run : v.point t = .run) (owns : m ∈ v.held t)
      (met : P.release v t m) (alone : v.waiting (.mutex m) = ∅) : Move cfg P v ((v.restore t m).drop t m)
  | handOver {t m p : ℕ} (run : v.point t = .run) (owns : m ∈ v.held t)
      (met : P.release v t m) (top : v.IsTop (.mutex m) p) : Move cfg P v ((v.restore t m).handOver t m p)

/-! ### The invariant -/

/-- What every state of the scheduler's data satisfies, between any two service calls. -/
structure Sound (cfg : Config) (v : View) : Prop where
  handle {t : ℕ} : v.installed t → 1 ≤ t ∧ t ≤ 32
  prio_lt {t : ℕ} : v.installed t → v.prio t < cfg.width
  inst_lt {t : ℕ} : v.installed t → v.inst t < cfg.width
  slot {t : ℕ} : v.installed t → v.slot (v.prio t) = t
  inst_slot {t : ℕ} : v.installed t → v.slot (v.inst t) = t
  /-- A task runs at its own priority or at the ceiling of a mutex it holds. -/
  level {t : ℕ} : v.installed t →
    v.prio t = v.inst t ∨ ∃ m ∈ v.held t, 0 < v.ceiling m ∧ v.prio t = v.ceiling m
  ready {p : ℕ} : p ∈ v.ready → ∃ t, v.installed t ∧ v.prio t = p
  pending {t p w : ℕ} {o : Obj} :
    v.point t = .pend o p w → v.installed t ∧ v.prio t = p ∧ v.created o
  waits {o : Obj} {p : ℕ} : p ∈ v.waiting o → ∃ t w, v.point t = .pend o p w
  count (o : Obj) : v.count o = (v.waiting o).card
  /-- A waiting task is made ready, without being selected, only by its timeout. -/
  asleep {t p w : ℕ} {o : Obj} : v.point t = .pend o p w → p ∈ v.waiting o → p ∈ v.ready →
    w ≠ 0 ∧ v.wake t = cfg.exitByTimeout
  timed {t : ℕ} : v.installed t → v.wake t < cfg.tickCountOverflow →
    (∃ o p w, v.point t = .pend o p w ∧ w ≠ 0) ∨ ∃ w, v.point t = .delay w
  napping {t w : ℕ} : v.point t = .delay w →
    v.installed t ∧ (v.prio t ∈ v.ready → cfg.tickCountOverflow ≤ v.wake t)
  fresh {t : ℕ} : ¬ v.installed t → v.point t = .run ∧ v.held t = []
  idle {t : ℕ} : v.installed t → v.inst t = 0 → v.point t = .run ∧ v.held t = []
  ceil_lt {m : ℕ} : 0 < v.ceiling m → v.ceiling m < cfg.width
  reserved {m : ℕ} : 0 < v.ceiling m → v.slot (v.ceiling m) ≠ emptyPrio
  ceil_inst {t m : ℕ} : v.installed t → 0 < v.ceiling m → v.ceiling m ≠ v.inst t
  ceil_inj {m n : ℕ} : 0 < v.ceiling m → v.ceiling m = v.ceiling n → m = n
  held_owner {t m : ℕ} : m ∈ v.held t → v.owner m = t ∧ ∀ p w, v.point t ≠ .pend (.mutex m) p w
  nodup (t : ℕ) : (v.held t).Nodup
  owned {m : ℕ} : v.owner m ≠ 0 → v.installed (v.owner m) ∧ (m ∈ v.held (v.owner m) ∨
    ∃ p w, v.point (v.owner m) = .pend (.mutex m) p w ∧ p ∉ v.waiting (.mutex m))
  assigned {t m p w : ℕ} : v.point t = .pend (.mutex m) p w → p ∉ v.waiting (.mutex m) →
    v.owner m = t
  busy {m : ℕ} : v.created (.mutex m) →
    (v.state m = availableResource ∧ v.owner m = 0 ∧ v.waiting (.mutex m) = ∅) ∨
    (v.state m = busyResource ∧ v.owner m ≠ 0)
  unused {m : ℕ} : ¬ v.created (.mutex m) → v.owner m = 0 ∧ v.ceiling m = 0

end View
end Brtos
