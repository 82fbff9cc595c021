import Brtos.View

/-! Every move keeps the invariant. -/
namespace Brtos.View
variable {cfg : Config} {v : View}

namespace Sound

theorem prio_inj (h : Sound cfg v) {t u : ℕ} (ht : v.installed t) (hu : v.installed u)
    (e : v.prio t = v.prio u) : t = u := by
  rw [← h.slot ht,e,h.slot hu]

theorem held_installed (h : Sound cfg v) {t m : ℕ} (hm : m ∈ v.held t) : v.installed t := by
  by_contra hn
  simp [(h.fresh hn).2] at hm

/-- A task that runs at a ceiling holds the mutex it belongs to. -/
theorem held_of_prio (h : Sound cfg v) {t m : ℕ} (ht : v.installed t) (hm : 0 < v.ceiling m)
    (e : v.prio t = v.ceiling m) : m ∈ v.held t := by
  rcases h.level ht with hi | ⟨n,hn,_,hc⟩
  · exact absurd (e.symm.trans hi) (h.ceil_inst ht hm)
  · rwa [h.ceil_inj hm (e.symm.trans hc)]

theorem waiter (h : Sound cfg v) {o : Obj} {p : ℕ} (hp : p ∈ v.waiting o) :
    ∃ t w, v.point t = .pend o p w ∧ v.installed t ∧ v.prio t = p := by
  obtain ⟨t,w,ht⟩ := h.waits hp
  exact ⟨t,w,ht,(h.pending ht).1,(h.pending ht).2.1⟩

/-- Only the task itself waits at its priority. -/
theorem waiter_unique (h : Sound cfg v) {t p w : ℕ} {o q : Obj} (ht : v.point t = .pend o p w)
    (hp : p ∈ v.waiting q) : q = o := by
  obtain ⟨u,w',hu,hi,hpu⟩ := h.waiter hp
  have := h.prio_inj hi (h.pending ht).1 (hpu.trans (h.pending ht).2.1.symm)
  subst this
  simp only [hu,Point.pend.injEq] at ht
  exact ht.1

theorem card_le (h : Sound cfg v) (o : Obj) : (v.waiting o).card ≤ 32 := by
  have hs : v.waiting o ⊆ Finset.range cfg.width := fun p hp => by
    obtain ⟨t,w,_,hi,rfl⟩ := h.waiter hp
    exact Finset.mem_range.mpr (h.prio_lt hi)
  exact (Finset.card_le_card hs).trans (by simpa using cfg.width_le)

/-- The eight-bit counter follows the wait list when a priority leaves it. -/
theorem count_erase (h : Sound cfg v) {o : Obj} {p : ℕ} (hp : p ∈ v.waiting o) (q : Obj) :
    Function.update v.count o ((v.count o+255)%256) q =
      (Function.update v.waiting o ((v.waiting o).erase p) q).card := by
  by_cases e : q = o
  · subst e
    have hc := h.count q
    have hle := h.card_le q
    have hpos := Finset.card_pos.mpr ⟨p,hp⟩
    rw [Function.update_self,Function.update_self,Finset.card_erase_of_mem hp]
    omega
  · rw [Function.update_of_ne e,Function.update_of_ne e]
    exact h.count q

theorem count_clear (h : Sound cfg v) (o q : Obj) :
    Function.update v.count o 0 q = (Function.update v.waiting o ∅ q).card := by
  by_cases e : q = o
  · subst e
    simp
  · rw [Function.update_of_ne e,Function.update_of_ne e]
    exact h.count q

theorem handle_lt_empty (h : Sound cfg v) {t : ℕ} (ht : v.installed t) : t ≠ emptyPrio := by
  have := h.handle ht
  simp only [emptyPrio]
  omega

theorem prio_not_free (h : Sound cfg v) {t p : ℕ} (ht : v.installed t)
    (free : v.slot p = emptyPrio) : v.prio t ≠ p ∧ v.inst t ≠ p := by
  constructor <;> rintro rfl
  · exact h.handle_lt_empty ht ((h.slot ht).symm.trans free)
  · exact h.handle_lt_empty ht ((h.inst_slot ht).symm.trans free)

theorem reserve (h : Sound cfg v) {p : ℕ} (free : v.slot p = emptyPrio) :
    Sound cfg (v.reserve p) :=
  { h with
    slot := fun ht => by
      simpa [View.reserve,Function.update_of_ne (h.prio_not_free ht free).1] using h.slot ht
    inst_slot := fun ht => by
      simpa [View.reserve,Function.update_of_ne (h.prio_not_free ht free).2] using h.inst_slot ht
    reserved := fun {m} hm => by
      by_cases e : v.ceiling m = p
      · subst e
        simp [View.reserve,mutexPrio,emptyPrio]
      · simpa [View.reserve,Function.update_of_ne e] using h.reserved hm }

theorem enroll (h : Sound cfg v) {t p : ℕ} (fresh : ¬ v.installed t) (range : 1 ≤ t ∧ t ≤ 32)
    (lt : p < cfg.width) (free : p ≠ 0 → v.slot p = emptyPrio)
    (idle : p = 0 → ∀ u, v.installed u → v.inst u ≠ 0) :
    Sound cfg (v.enroll t p cfg.noTimeout) := by
  have apart : ∀ {u}, v.installed u → v.prio u ≠ p ∧ v.inst u ≠ p := by
    intro u hu
    by_cases hp : p = 0
    · subst hp
      refine ⟨fun e => ?_,idle rfl u hu⟩
      rcases h.level hu with hi | ⟨m,_,hc,he⟩
      · exact idle rfl u hu (hi.symm.trans e)
      · omega
    · exact h.prio_not_free hu (free hp)
  have ceil : ∀ {m}, 0 < v.ceiling m → v.ceiling m ≠ p := by
    rintro m hm rfl
    exact h.reserved hm (free (by omega))
  have ne : ∀ {u}, v.installed u → u ≠ t := by
    rintro u hu rfl
    exact fresh hu
  have late : cfg.tickCountOverflow ≤ cfg.noTimeout :=
    (cfg.overflow_lt_exit.trans cfg.exit_lt_noTimeout).le
  obtain ⟨hrun,hheld⟩ := h.fresh fresh
  have busy : ∀ {u o q w}, v.point u = .pend o q w → u ≠ t := by
    rintro u o q w hu rfl
    simp [hrun] at hu
  exact
  { h with
    handle := by
      rintro u (hu | rfl)
      · exact h.handle hu
      · exact range
    prio_lt := by
      rintro u (hu | rfl)
      · simpa [View.enroll,ne hu] using h.prio_lt hu
      · simpa [View.enroll] using lt
    inst_lt := by
      rintro u (hu | rfl)
      · simpa [View.enroll,ne hu] using h.inst_lt hu
      · simpa [View.enroll] using lt
    slot := by
      rintro u (hu | rfl)
      · simpa [View.enroll,ne hu,(apart hu).1] using h.slot hu
      · simp [View.enroll]
    inst_slot := by
      rintro u (hu | rfl)
      · simpa [View.enroll,ne hu,(apart hu).2] using h.inst_slot hu
      · simp [View.enroll]
    level := by
      rintro u (hu | rfl)
      · simpa [View.enroll,ne hu] using h.level hu
      · simp [View.enroll]
    ready := by
      intro q hq
      rcases Finset.mem_insert.mp hq with rfl | hq
      · exact ⟨t,Or.inr rfl,by simp [View.enroll]⟩
      · obtain ⟨u,hu,hp⟩ := h.ready hq
        exact ⟨u,Or.inl hu,by simpa [View.enroll,ne hu] using hp⟩
    pending := by
      intro u q w o hu
      obtain ⟨hi,hp,hc⟩ := h.pending hu
      exact ⟨Or.inl hi,by simpa [View.enroll,ne hi] using hp,hc⟩
    asleep := by
      intro u q w o hu hq hr
      obtain ⟨hi,hp,_⟩ := h.pending hu
      have hr' : q ∈ v.ready := by
        rcases Finset.mem_insert.mp hr with rfl | hr
        · exact absurd hp (apart hi).1
        · exact hr
      simpa [View.enroll,ne hi] using h.asleep hu hq hr'
    timed := by
      rintro u (hu | rfl) hw
      · exact h.timed hu (by simpa [View.enroll,ne hu] using hw)
      · simp [View.enroll] at hw
        omega
    napping := by
      intro u w hu
      obtain ⟨hi,hr⟩ := h.napping hu
      refine ⟨Or.inl hi,fun hq => ?_⟩
      simp [View.enroll,ne hi,(apart hi).1] at hq ⊢
      exact hr hq
    fresh := fun hu => h.fresh fun hi => hu (Or.inl hi)
    idle := by
      rintro u (hu | rfl) h0
      · exact h.idle hu (by simpa [View.enroll,ne hu] using h0)
      · exact ⟨hrun,hheld⟩
    reserved := fun {m} hm => by
      simpa [View.enroll,Function.update_of_ne (ceil hm)] using h.reserved hm
    ceil_inst := by
      rintro u m (hu | rfl) hm
      · simpa [View.enroll,ne hu] using h.ceil_inst hu hm
      · simpa [View.enroll] using ceil hm
    owned := fun hm => ⟨Or.inl (h.owned hm).1,(h.owned hm).2⟩ }

theorem establish (h : Sound cfg v) {o : Obj} (unused : v.Unattended o)
    (other : ∀ m, o ≠ .mutex m) : Sound cfg (v.establish o) :=
  have keep : ∀ m, (v.establish o).waiting (.mutex m) = v.waiting (.mutex m) := fun m => by
    simp [View.establish,(other m).symm]
  { h with
    count := h.count_clear o
    pending := fun hu => ⟨(h.pending hu).1,(h.pending hu).2.1,Or.inl (h.pending hu).2.2⟩
    waits := fun {q p} hp => by
      by_cases e : q = o
      · simp [View.establish,e] at hp
      · exact h.waits (by simpa [View.establish,e] using hp)
    asleep := fun {u p w q} hu hp hr => by
      by_cases e : q = o
      · exact absurd (e ▸ hu) (unused u p w)
      · exact h.asleep hu (by simpa [View.establish,e] using hp) hr
    owned := fun {m} hm => by
      rw [keep]
      exact h.owned hm
    assigned := fun {u m p w} hu hp => h.assigned hu (by rwa [keep] at hp)
    busy := fun {m} hc => by
      rw [keep]
      exact h.busy (hc.resolve_right fun e => other m e.symm)
    unused := fun hc => h.unused fun hn => hc (Or.inl hn) }

theorem abolish (h : Sound cfg v) {o : Obj} (unused : v.Unattended o)
    (other : ∀ m, o ≠ .mutex m) : Sound cfg (v.abolish o) :=
  have keep : ∀ m, (v.abolish o).waiting (.mutex m) = v.waiting (.mutex m) := fun m => by
    simp [View.abolish,(other m).symm]
  { h with
    count := h.count_clear o
    pending := fun {u p w q} hu => by
      obtain ⟨hi,hp,hc⟩ := h.pending hu
      exact ⟨hi,hp,hc,fun e => unused u p w (e ▸ hu)⟩
    waits := fun {q p} hp => by
      by_cases e : q = o
      · simp [View.abolish,e] at hp
      · exact h.waits (by simpa [View.abolish,e] using hp)
    asleep := fun {u p w q} hu hp hr => by
      by_cases e : q = o
      · exact absurd (e ▸ hu) (unused u p w)
      · exact h.asleep hu (by simpa [View.abolish,e] using hp) hr
    owned := fun {m} hm => by
      rw [keep]
      exact h.owned hm
    assigned := fun {u m p w} hu hp => h.assigned hu (by rwa [keep] at hp)
    busy := fun {m} hc => by
      rw [keep]
      exact h.busy hc.1
    unused := fun {m} hc => h.unused fun hn => hc ⟨hn,fun e => other m e.symm⟩ }

theorem establishMutex (h : Sound cfg v) {m c : ℕ} (unused : ¬ v.created (.mutex m))
    (lt : c < cfg.width) (reserved : 0 < c → v.slot c = mutexPrio)
    (apart : 0 < c → (∀ u, v.installed u → v.inst u ≠ c) ∧ ∀ n, v.ceiling n ≠ c) :
    Sound cfg (v.establishMutex m c) := by
  obtain ⟨free,zero⟩ := h.unused unused
  have nobody : v.Unattended (.mutex m) := fun t p w ht => unused (h.pending ht).2.2
  have unheld : ∀ {u}, m ∉ v.held u := fun {u} hu => by
    have := (h.handle (h.held_installed hu)).1
    rw [(h.held_owner hu).1] at free
    omega
  have ceil : ∀ n, (v.establishMutex m c).ceiling n = if n = m then c else v.ceiling n := fun n => by
    by_cases e : n = m <;> simp [View.establishMutex,View.ceiling,e]
  have owner : ∀ n, (v.establishMutex m c).owner n = v.owner n := fun n => by
    by_cases e : n = m <;> simp [View.establishMutex,View.owner,e]
  have keep : ∀ {n}, n ≠ m →
      (v.establishMutex m c).waiting (.mutex n) = v.waiting (.mutex n) := fun e => by
    simp [View.establishMutex,View.establish,e]
  have same : ∀ {n}, n ≠ m → (v.establishMutex m c).state n = v.state n := fun e => by
    simp [View.establishMutex,View.state,e]
  exact
  { h with
    count := h.count_clear (.mutex m)
    level := fun hu => by
      refine (h.level hu).imp_right fun ⟨n,hn,hc⟩ => ⟨n,hn,?_⟩
      have e : n ≠ m := by
        rintro rfl
        exact unheld hn
      rw [ceil,if_neg e]
      exact hc
    pending := fun hu => ⟨(h.pending hu).1,(h.pending hu).2.1,Or.inl (h.pending hu).2.2⟩
    waits := fun {q p} hp => by
      by_cases e : q = .mutex m
      · simp [View.establishMutex,View.establish,e] at hp
      · exact h.waits (by simpa [View.establishMutex,View.establish,e] using hp)
    asleep := fun {u p w q} hu hp hr => by
      by_cases e : q = .mutex m
      · exact absurd (e ▸ hu) (nobody u p w)
      · exact h.asleep hu (by simpa [View.establishMutex,View.establish,e] using hp) hr
    ceil_lt := fun {n} hn => by
      simp only [ceil] at hn ⊢
      split_ifs with e
      · exact lt
      · exact h.ceil_lt (by simpa only [if_neg e] using hn)
    reserved := fun {n} hn => by
      simp only [ceil] at hn ⊢
      split_ifs with e
      · rw [if_pos e] at hn
        change v.slot c ≠ emptyPrio
        rw [reserved hn]
        decide
      · exact h.reserved (by simpa only [if_neg e] using hn)
    ceil_inst := fun {u n} hu hn => by
      simp only [ceil] at hn ⊢
      split_ifs with e
      · rw [if_pos e] at hn
        exact ((apart hn).1 u hu).symm
      · exact h.ceil_inst hu (by simpa only [if_neg e] using hn)
    ceil_inj := fun {n l} hn hl => by
      simp only [ceil] at hn hl
      split_ifs at hn hl with e1 e2 e2
      · rw [e1,e2]
      · exact absurd hl.symm ((apart hn).2 l)
      · exact absurd hl ((apart (hl ▸ hn)).2 n)
      · exact h.ceil_inj hn hl
    held_owner := fun hn => by
      rw [owner]
      exact h.held_owner hn
    owned := fun {n} hn => by
      rw [owner] at hn ⊢
      have e : n ≠ m := by
        rintro rfl
        exact hn free
      rw [keep e]
      exact h.owned hn
    assigned := fun {u n p w} hu hp => by
      have e : n ≠ m := by
        rintro rfl
        exact nobody u p w hu
      rw [owner]
      exact h.assigned hu (by rwa [keep e] at hp)
    busy := fun {n} hc => by
      rw [owner]
      by_cases e : n = m
      · subst e
        exact Or.inl ⟨by simp [View.establishMutex,View.state],free,by
          simp [View.establishMutex,View.establish]⟩
      · rw [keep e,same e]
        exact h.busy (hc.resolve_right fun he => e (Obj.mutex.inj he))
    unused := fun {n} hc => by
      have e : n ≠ m := by
        rintro rfl
        exact hc (Or.inr rfl)
      rw [owner,ceil,if_neg e]
      exact h.unused fun hn => hc (Or.inl hn) }

theorem abolishMutex (h : Sound cfg v) {m : ℕ} (unused : v.Unattended (.mutex m))
    (free : v.owner m = 0) : Sound cfg (v.abolishMutex m) := by
  have unheld : ∀ {u}, m ∉ v.held u := fun {u} hu => by
    have := (h.handle (h.held_installed hu)).1
    rw [(h.held_owner hu).1] at free
    omega
  have ceil : ∀ n, (v.abolishMutex m).ceiling n = if n = m then 0 else v.ceiling n := fun n => by
    by_cases e : n = m <;> simp [View.abolishMutex,View.ceiling,e]
  have pos : ∀ {n}, 0 < (v.abolishMutex m).ceiling n →
      (v.abolishMutex m).ceiling n = v.ceiling n ∧ 0 < v.ceiling n := fun {n} hn => by
    simp only [ceil] at hn ⊢
    split_ifs at hn ⊢ with e
    · omega
    · exact ⟨rfl,hn⟩
  have owner : ∀ n, (v.abolishMutex m).owner n = v.owner n := fun n => by
    by_cases e : n = m <;> simp [View.abolishMutex,View.owner,e]
    exact free.symm
  have keep : ∀ {n}, n ≠ m → (v.abolishMutex m).waiting (.mutex n) = v.waiting (.mutex n) :=
    fun e => by simp [View.abolishMutex,View.abolish,e]
  have same : ∀ {n}, n ≠ m → (v.abolishMutex m).state n = v.state n := fun e => by
    simp [View.abolishMutex,View.state,e]
  exact
  { h with
    count := h.count_clear (.mutex m)
    level := fun hu => by
      refine (h.level hu).imp_right fun ⟨n,hn,hc⟩ => ⟨n,hn,?_⟩
      have e : n ≠ m := by
        rintro rfl
        exact unheld hn
      rw [ceil,if_neg e]
      exact hc
    pending := fun {u p w q} hu => by
      obtain ⟨hi,hp,hc⟩ := h.pending hu
      exact ⟨hi,hp,hc,fun e => unused u p w (e ▸ hu)⟩
    waits := fun {q p} hp => by
      by_cases e : q = .mutex m
      · simp [View.abolishMutex,View.abolish,e] at hp
      · exact h.waits (by simpa [View.abolishMutex,View.abolish,e] using hp)
    asleep := fun {u p w q} hu hp hr => by
      by_cases e : q = .mutex m
      · exact absurd (e ▸ hu) (unused u p w)
      · exact h.asleep hu (by simpa [View.abolishMutex,View.abolish,e] using hp) hr
    ceil_lt := fun hn => by
      rw [(pos hn).1]
      exact h.ceil_lt (pos hn).2
    reserved := fun hn => by
      rw [(pos hn).1]
      exact h.reserved (pos hn).2
    ceil_inst := fun hu hn => by
      rw [(pos hn).1]
      exact h.ceil_inst hu (pos hn).2
    ceil_inj := fun {n l} hn hl => by
      have hl' : 0 < (v.abolishMutex m).ceiling l := hl ▸ hn
      exact h.ceil_inj (pos hn).2 (by rw [← (pos hn).1,hl,(pos hl').1])
    held_owner := fun hn => by
      rw [owner]
      exact h.held_owner hn
    owned := fun {n} hn => by
      rw [owner] at hn ⊢
      have e : n ≠ m := by
        rintro rfl
        exact hn free
      rw [keep e]
      exact h.owned hn
    assigned := fun {u n p w} hu hp => by
      have e : n ≠ m := by
        rintro rfl
        exact unused u p w hu
      rw [owner]
      exact h.assigned hu (by rwa [keep e] at hp)
    busy := fun {n} hc => by
      have e : n ≠ m := fun e => hc.2 (e ▸ rfl)
      rw [owner,keep e,same e]
      exact h.busy hc.1
    unused := fun {n} hc => by
      rw [owner,ceil]
      by_cases e : n = m
      · subst e
        exact ⟨free,if_pos rfl⟩
      · rw [if_neg e]
        exact h.unused fun hn => hc ⟨hn,fun he => e (Obj.mutex.inj he)⟩ }

theorem sleep (h : Sound cfg v) {t w d : ℕ} {o : Obj} (inst : v.installed t)
    (idle : v.inst t ≠ 0) (run : v.point t = .run) (created : v.created o)
    (busy : ∀ m, o = .mutex m → v.owner m ≠ t ∧ v.state m ≠ availableResource)
    (forever : w = 0 → d = cfg.noTimeout) : Sound cfg (v.sleep t o w d) := by
  have others : ∀ {u o' p' w'}, v.point u = .pend o' p' w' → u ≠ t := by
    rintro u o' p' w' hu rfl
    simp [run] at hu
  have point : ∀ {u}, u ≠ t → (v.sleep t o w d).point u = v.point u := fun e => by
    simp [View.sleep,e]
  have self : (v.sleep t o w d).point t = .pend o (v.prio t) w := by simp [View.sleep]
  have grown : ∀ {q p}, p ∈ (v.sleep t o w d).waiting q ↔
      p ∈ v.waiting q ∨ (q = o ∧ p = v.prio t) := fun {q p} => by
    by_cases e : q = o <;> simp [View.sleep,e,or_comm]
  have wake : ∀ {u}, u ≠ t → (v.sleep t o w d).wake u = v.wake u := fun e => by
    simp [View.sleep,e]
  have unlisted : ∀ q, v.prio t ∉ v.waiting q := fun q hq => by
    obtain ⟨u,w',hu,hi,hp⟩ := h.waiter hq
    exact others hu (h.prio_inj hi inst hp)
  exact
  { h with
    count := fun q => by
      by_cases e : q = o
      · subst e
        have hc := h.count q
        have hle := h.card_le q
        simp only [View.sleep,Function.update_self,Finset.card_insert_of_notMem (unlisted q)]
        omega
      · simpa [View.sleep,e] using h.count q
    ready := fun hp => h.ready (Finset.mem_of_mem_erase hp)
    pending := fun {u p' w' o'} hu => by
      by_cases e : u = t
      · subst e
        rw [self] at hu
        simp only [Point.pend.injEq] at hu
        obtain ⟨rfl,rfl,rfl⟩ := hu
        exact ⟨inst,rfl,created⟩
      · exact h.pending (point e ▸ hu)
    waits := fun {q p} hp => by
      rcases grown.mp hp with hp | ⟨rfl,rfl⟩
      · obtain ⟨u,w',hu⟩ := h.waits hp
        exact ⟨u,w',by rwa [point (others hu)]⟩
      · exact ⟨t,w,self⟩
    asleep := fun {u p' w' o'} hu hp hr => by
      by_cases e : u = t
      · subst e
        rw [self] at hu
        simp only [Point.pend.injEq] at hu
        exact absurd hu.2.1.symm (Finset.ne_of_mem_erase hr)
      · rw [point e] at hu
        rw [wake e]
        refine h.asleep hu ?_ (Finset.mem_of_mem_erase hr)
        refine (grown.mp hp).resolve_right fun he => e ?_
        exact h.prio_inj (h.pending hu).1 inst ((h.pending hu).2.1.trans he.2)
    timed := fun {u} hu hw => by
      by_cases e : u = t
      · subst e
        refine Or.inl ⟨o,v.prio u,w,self,fun h0 => ?_⟩
        have := (cfg.overflow_lt_exit.trans cfg.exit_lt_noTimeout)
        simp only [View.sleep,Function.update_self,forever h0] at hw
        omega
      · rw [point e]
        exact h.timed hu (wake e ▸ hw)
    napping := fun {u w'} hu => by
      have e : u ≠ t := by
        rintro rfl
        simp [self] at hu
      rw [point e] at hu
      rw [wake e]
      exact ⟨(h.napping hu).1,fun hr => (h.napping hu).2 (Finset.mem_of_mem_erase hr)⟩
    fresh := fun {u} hu => by
      rw [point fun e => hu (e ▸ inst)]
      exact h.fresh hu
    idle := fun {u} hu h0 => by
      rw [point fun e => idle (e ▸ h0)]
      exact h.idle hu h0
    held_owner := fun {u n} hn => by
      refine ⟨(h.held_owner hn).1,fun p' w' hu => ?_⟩
      by_cases e : u = t
      · subst e
        rw [self] at hu
        simp only [Point.pend.injEq] at hu
        exact (busy n hu.1).1 (h.held_owner hn).1
      · exact (h.held_owner hn).2 p' w' (point e ▸ hu)
    owned := fun {n} hn => by
      refine ⟨(h.owned hn).1,(h.owned hn).2.imp_right fun ⟨p',w',hu,hp⟩ => ⟨p',w',?_,?_⟩⟩
      · exact (point (others hu)).trans hu
      · intro hp'
        refine hp ((grown.mp hp').resolve_right fun he => unlisted (.mutex n) ?_)
        exact absurd (h.prio_inj (h.pending hu).1 inst ((h.pending hu).2.1.trans he.2)) (others hu)
    assigned := fun {u n p' w'} hu hp => by
      by_cases e : u = t
      · subst e
        rw [self] at hu
        simp only [Point.pend.injEq] at hu
        exact absurd (grown.mpr (Or.inr ⟨hu.1.symm,hu.2.1.symm⟩)) hp
      · exact h.assigned (point e ▸ hu) fun hq => hp (grown.mpr (Or.inl hq))
    busy := fun {n} hc => by
      rcases h.busy hc with ⟨hs,ho,hw⟩ | hb
      · refine Or.inl ⟨hs,ho,?_⟩
        have e : Obj.mutex n ≠ o := fun e => (busy n e.symm).2 hs
        simpa [View.sleep,e] using hw
      · exact Or.inr hb }

theorem nap (h : Sound cfg v) {t w d : ℕ} (inst : v.installed t) (idle : v.inst t ≠ 0)
    (run : v.point t = .run) : Sound cfg (v.nap t w d) := by
  have others : ∀ {u o' p' w'}, v.point u = .pend o' p' w' → u ≠ t := by
    rintro u o' p' w' hu rfl
    simp [run] at hu
  have point : ∀ {u}, u ≠ t → (v.nap t w d).point u = v.point u := fun e => by
    simp [View.nap,e]
  have self : (v.nap t w d).point t = .delay w := by simp [View.nap]
  have back : ∀ {u o' p' w'}, (v.nap t w d).point u = .pend o' p' w' →
      u ≠ t ∧ v.point u = .pend o' p' w' := fun {u o' p' w'} hu => by
    have e : u ≠ t := by
      rintro rfl
      simp [self] at hu
    exact ⟨e,point e ▸ hu⟩
  have wake : ∀ {u}, u ≠ t → (v.nap t w d).wake u = v.wake u := fun e => by simp [View.nap,e]
  exact
  { h with
    ready := fun hp => h.ready (Finset.mem_of_mem_erase hp)
    pending := fun hu => h.pending (back hu).2
    waits := fun hp => by
      obtain ⟨u,w',hu⟩ := h.waits hp
      exact ⟨u,w',by rwa [point (others hu)]⟩
    asleep := fun hu hp hr => by
      rw [wake (back hu).1]
      exact h.asleep (back hu).2 hp (Finset.mem_of_mem_erase hr)
    timed := fun {u} hu hw => by
      by_cases e : u = t
      · exact Or.inr ⟨w,e ▸ self⟩
      · rw [point e]
        exact h.timed hu (wake e ▸ hw)
    napping := fun {u w'} hu => by
      by_cases e : u = t
      · subst e
        exact ⟨inst,fun hr => absurd rfl (Finset.ne_of_mem_erase hr)⟩
      · rw [point e] at hu
        rw [wake e]
        exact ⟨(h.napping hu).1,fun hr => (h.napping hu).2 (Finset.mem_of_mem_erase hr)⟩
    fresh := fun {u} hu => by
      rw [point fun e => hu (e ▸ inst)]
      exact h.fresh hu
    idle := fun {u} hu h0 => by
      rw [point fun e => idle (e ▸ h0)]
      exact h.idle hu h0
    held_owner := fun hn => ⟨(h.held_owner hn).1,fun p' w' hu => (h.held_owner hn).2 p' w' (back hu).2⟩
    owned := fun hn => by
      refine ⟨(h.owned hn).1,(h.owned hn).2.imp_right fun ⟨p',w',hu,hp⟩ => ⟨p',w',?_,hp⟩⟩
      exact (point (others hu)).trans hu
    assigned := fun hu hp => h.assigned (back hu).2 hp }

theorem rouse (h : Sound cfg v) {o : Obj} {p : ℕ} (top : v.IsTop o p)
    (other : ∀ m, o ≠ .mutex m) : Sound cfg (v.rouse o p) := by
  have keep : ∀ m, (v.rouse o p).waiting (.mutex m) = v.waiting (.mutex m) := fun m => by
    simp [View.rouse,(other m).symm]
  have fewer : ∀ {q r}, r ∈ (v.rouse o p).waiting q → r ∈ v.waiting q ∧ (q = o → r ≠ p) := by
    intro q r hr
    by_cases e : q = o
    · subst e
      simp only [View.rouse,Function.update_self,Finset.mem_erase] at hr
      exact ⟨hr.2,fun _ => hr.1⟩
    · simp only [View.rouse,Function.update_of_ne e] at hr
      exact ⟨hr,fun he => absurd he e⟩
  obtain ⟨t,w,ht,hi,hp⟩ := h.waiter top.1
  exact
  { h with
    count := h.count_erase top.1
    ready := fun hq => by
      rcases Finset.mem_insert.mp hq with rfl | hq
      · exact ⟨t,hi,hp⟩
      · exact h.ready hq
    waits := fun hq => h.waits (fewer hq).1
    asleep := fun {u q w' o'} hu hq hr => by
      rcases Finset.mem_insert.mp hr with rfl | hr
      · exact absurd rfl ((fewer hq).2 (h.waiter_unique hu top.1).symm)
      · exact h.asleep hu (fewer hq).1 hr
    napping := fun {u w'} hu => by
      refine ⟨(h.napping hu).1,fun hr => ?_⟩
      rcases Finset.mem_insert.mp hr with e | hr
      · have := h.prio_inj (h.napping hu).1 hi (e.trans hp.symm)
        subst this
        exact absurd (ht.symm.trans hu) (by simp)
      · exact (h.napping hu).2 hr
    owned := fun {m} hn => by
      rw [keep]
      exact h.owned hn
    assigned := fun {u m q w'} hu hq => h.assigned hu (by rwa [keep] at hq)
    busy := fun {m} hc => by
      rw [keep]
      exact h.busy hc }

theorem expire (h : Sound cfg v) {t : ℕ} (inst : v.installed t)
    (due : v.wake t < cfg.tickCountOverflow) : Sound cfg (v.expire t cfg.exitByTimeout) := by
  have wake : ∀ {u}, u ≠ t → (v.expire t cfg.exitByTimeout).wake u = v.wake u := fun e => by
    simp [View.expire,e]
  have self : (v.expire t cfg.exitByTimeout).wake t = cfg.exitByTimeout := by simp [View.expire]
  have ready : ∀ {u}, u ≠ t → v.installed u →
      v.prio u ∈ (v.expire t cfg.exitByTimeout).ready → v.prio u ∈ v.ready := fun e hu hr => by
    refine (Finset.mem_insert.mp hr).resolve_left fun he => e ?_
    exact h.prio_inj hu inst he
  exact
  { h with
    ready := fun hq => by
      rcases Finset.mem_insert.mp hq with rfl | hq
      · exact ⟨t,inst,rfl⟩
      · exact h.ready hq
    asleep := fun {u p w o} hu hp hr => by
      by_cases e : u = t
      · subst e
        refine ⟨?_,self⟩
        change v.point u = .pend o p w at hu
        rcases h.timed inst due with ⟨o',p',w',hu',hw'⟩ | ⟨w',hu'⟩ <;> rw [hu'] at hu
        · simp only [Point.pend.injEq] at hu
          rwa [← hu.2.2]
        · contradiction
      · rw [wake e]
        obtain ⟨hi,rfl,_⟩ := h.pending hu
        exact h.asleep hu hp (ready e hi hr)
    timed := fun {u} hu hw => by
      have := cfg.overflow_lt_exit
      by_cases e : u = t
      · subst e
        rw [self] at hw
        omega
      · exact h.timed hu (wake e ▸ hw)
    napping := fun {u w} hu => by
      refine ⟨(h.napping hu).1,fun hr => ?_⟩
      by_cases e : u = t
      · subst e
        rw [self]
        exact cfg.overflow_lt_exit.le
      · rw [wake e]
        exact (h.napping hu).2 (ready e (h.napping hu).1 hr) }

theorem goOn (h : Sound cfg v) {t d : ℕ}
    (out : ∀ {o p w}, v.point t = .pend o p w → p ∉ v.waiting o ∧ ∀ m, o ≠ .mutex m)
    (late : cfg.tickCountOverflow ≤ d) : Sound cfg (v.goOn t d) := by
  have point : ∀ {u}, u ≠ t → (v.goOn t d).point u = v.point u := fun e => by simp [View.goOn,e]
  have self : (v.goOn t d).point t = .run := by simp [View.goOn]
  have wake : ∀ {u}, u ≠ t → (v.goOn t d).wake u = v.wake u := fun e => by simp [View.goOn,e]
  have back : ∀ {u x}, (v.goOn t d).point u = x → x ≠ .run → u ≠ t ∧ v.point u = x := by
    intro u x hu hx
    have e : u ≠ t := by
      rintro rfl
      exact hx (hu.symm.trans self)
    exact ⟨e,point e ▸ hu⟩
  exact
  { h with
    pending := fun hu => h.pending (back hu (by simp)).2
    waits := fun {o p} hp => by
      obtain ⟨u,w,hu⟩ := h.waits hp
      refine ⟨u,w,(point ?_).trans hu⟩
      rintro rfl
      exact (out hu).1 hp
    asleep := fun hu hp hr => by
      obtain ⟨e,hu⟩ := back hu (by simp)
      rw [wake e]
      exact h.asleep hu hp hr
    timed := fun {u} hu hw => by
      by_cases e : u = t
      · subst e
        simp [View.goOn] at hw
        omega
      · rw [point e]
        exact h.timed hu (wake e ▸ hw)
    napping := fun hu => by
      obtain ⟨e,hu⟩ := back hu (by simp)
      rw [wake e]
      exact h.napping hu
    fresh := fun {u} hu => by
      by_cases e : u = t
      · exact ⟨e ▸ self,(h.fresh hu).2⟩
      · exact point e ▸ h.fresh hu
    idle := fun {u} hu h0 => by
      by_cases e : u = t
      · exact ⟨e ▸ self,(h.idle hu h0).2⟩
      · exact point e ▸ h.idle hu h0
    held_owner := fun hn =>
      ⟨(h.held_owner hn).1,fun p w hu => (h.held_owner hn).2 p w (back hu (by simp)).2⟩
    owned := fun {m} hm => by
      refine ⟨(h.owned hm).1,(h.owned hm).2.imp_right fun ⟨p,w,hu,hp⟩ => ⟨p,w,?_,hp⟩⟩
      refine (point fun e => ?_).trans hu
      exact (out (e ▸ hu)).2 m rfl
    assigned := fun hu hp => h.assigned (back hu (by simp)).2 hp }

theorem giveUp (h : Sound cfg v) {t p w : ℕ} {o : Obj} (ht : v.point t = .pend o p w)
    (hp : p ∈ v.waiting o) (late : v.wake t = cfg.exitByTimeout) : Sound cfg (v.giveUp t o p) := by
  have point : ∀ {u}, u ≠ t → (v.giveUp t o p).point u = v.point u := fun e => by
    simp [View.giveUp,e]
  have self : (v.giveUp t o p).point t = .run := by simp [View.giveUp]
  have back : ∀ {u x}, (v.giveUp t o p).point u = x → x ≠ .run → u ≠ t ∧ v.point u = x := by
    intro u x hu hx
    have e : u ≠ t := by
      rintro rfl
      exact hx (hu.symm.trans self)
    exact ⟨e,point e ▸ hu⟩
  have fewer : ∀ {q r}, r ∈ (v.giveUp t o p).waiting q ↔ r ∈ v.waiting q ∧ (q = o → r ≠ p) := by
    intro q r
    by_cases e : q = o <;> simp [View.giveUp,e,and_comm]
  have apart : ∀ {u q r w'}, v.point u = .pend q r w' → u ≠ t → r ≠ p := by
    rintro u q r w' hu e rfl
    exact e (h.prio_inj (h.pending hu).1 (h.pending ht).1
      ((h.pending hu).2.1.trans (h.pending ht).2.1.symm))
  exact
  { h with
    count := h.count_erase hp
    pending := fun hu => h.pending (back hu (by simp)).2
    waits := fun {q r} hr => by
      obtain ⟨hr,hne⟩ := fewer.mp hr
      obtain ⟨u,w',hu⟩ := h.waits hr
      refine ⟨u,w',(point ?_).trans hu⟩
      rintro rfl
      rw [ht,Point.pend.injEq] at hu
      exact hne hu.1.symm hu.2.1.symm
    asleep := fun hu hr hr' => h.asleep (back hu (by simp)).2 (fewer.mp hr).1 hr'
    timed := fun {u} hu hw => by
      have := cfg.overflow_lt_exit
      have e : u ≠ t := by
        rintro rfl
        change v.wake u < _ at hw
        omega
      rw [point e]
      exact h.timed hu hw
    napping := fun hu => h.napping (back hu (by simp)).2
    fresh := fun {u} hu => by
      rw [point fun e => hu (e ▸ (h.pending ht).1)]
      exact h.fresh hu
    idle := fun {u} hu h0 => by
      by_cases e : u = t
      · exact ⟨e ▸ self,(h.idle hu h0).2⟩
      · exact point e ▸ h.idle hu h0
    held_owner := fun hn =>
      ⟨(h.held_owner hn).1,fun r w' hu => (h.held_owner hn).2 r w' (back hu (by simp)).2⟩
    owned := fun {m} hm => by
      refine ⟨(h.owned hm).1,(h.owned hm).2.imp_right fun ⟨r,w',hu,hr⟩ => ⟨r,w',?_,?_⟩⟩
      · refine (point fun e => ?_).trans hu
        rw [show v.owner m = t from e,ht,Point.pend.injEq] at hu
        exact hr (hu.1 ▸ hu.2.1 ▸ hp)
      · exact fun hr' => hr (fewer.mp hr').1
    assigned := fun {u m r w'} hu hr => by
      obtain ⟨e,hu⟩ := back hu (by simp)
      exact h.assigned hu fun hq => hr (fewer.mpr ⟨hq,fun _ => apart hu e⟩)
    busy := fun {m} hc => by
      refine (h.busy hc).imp_left fun ⟨hs,ho,hw⟩ => ⟨hs,ho,?_⟩
      refine Finset.eq_empty_of_forall_notMem fun r hr => ?_
      simpa [hw] using (fewer.mp hr).1 }

/-- A free mutex, or one that has been handed over to the task, becomes one that it holds. -/
theorem gain (h : Sound cfg v) {t m d : ℕ} (inst : v.installed t) (idle : v.inst t ≠ 0)
    (created : v.created (.mutex m)) (free : v.owner m = 0 ∨ v.owner m = t)
    (unheld : m ∉ v.held t)
    (out : ∀ {o p w}, v.point t = .pend o p w → p ∉ v.waiting o ∧ o = .mutex m)
    (late : cfg.tickCountOverflow ≤ d) : Sound cfg ((v.goOn t d).gain t m) := by
  have pos : t ≠ 0 := by
    have := (h.handle inst).1
    omega
  have nobody : ∀ {u}, m ∉ v.held u := fun {u} hu => by
    have hi := (h.handle (h.held_installed hu)).1
    rcases free with e | e <;> rw [(h.held_owner hu).1] at e
    · omega
    · exact unheld (e ▸ hu)
  have point : ∀ {u}, u ≠ t → ((v.goOn t d).gain t m).point u = v.point u := fun e => by
    simp [View.gain,View.goOn,e]
  have self : ((v.goOn t d).gain t m).point t = .run := by simp [View.gain,View.goOn]
  have wake : ∀ {u}, u ≠ t → ((v.goOn t d).gain t m).wake u = v.wake u := fun e => by
    simp [View.gain,View.goOn,e]
  have back : ∀ {u x}, ((v.goOn t d).gain t m).point u = x → x ≠ .run →
      u ≠ t ∧ v.point u = x := by
    intro u x hu hx
    have e : u ≠ t := by
      rintro rfl
      exact hx (hu.symm.trans self)
    exact ⟨e,point e ▸ hu⟩
  have ceil : ∀ n, ((v.goOn t d).gain t m).ceiling n = v.ceiling n := fun n => by
    by_cases e : n = m <;> simp [View.gain,View.goOn,View.ceiling,e]
  have owner : ∀ n, ((v.goOn t d).gain t m).owner n = if n = m then t else v.owner n := fun n => by
    by_cases e : n = m <;> simp [View.gain,View.goOn,View.owner,e]
  have held : ∀ {u n}, n ∈ ((v.goOn t d).gain t m).held u ↔ n ∈ v.held u ∨ (u = t ∧ n = m) := by
    intro u n
    by_cases e : u = t
    · subst e
      simp [View.gain,View.goOn,or_comm]
    · simp [View.gain,View.goOn,e]
  exact
  { h with
    level := fun hu => by
      refine (h.level hu).imp_right ?_
      rintro ⟨n,hn,hc⟩
      refine ⟨n,held.mpr (Or.inl hn),?_⟩
      rw [ceil]
      exact hc
    pending := fun hu => h.pending (back hu (by simp)).2
    waits := fun {o p} hp => by
      obtain ⟨u,w,hu⟩ := h.waits hp
      refine ⟨u,w,(point ?_).trans hu⟩
      rintro rfl
      exact (out hu).1 hp
    asleep := fun hu hp hr => by
      obtain ⟨e,hu⟩ := back hu (by simp)
      rw [wake e]
      exact h.asleep hu hp hr
    timed := fun {u} hu hw => by
      by_cases e : u = t
      · subst e
        simp [View.gain,View.goOn] at hw
        omega
      · rw [point e]
        exact h.timed hu (wake e ▸ hw)
    napping := fun hu => by
      obtain ⟨e,hu⟩ := back hu (by simp)
      rw [wake e]
      exact h.napping hu
    fresh := fun {u} hu => by
      have e : u ≠ t := fun e => hu (e ▸ inst)
      rw [point e]
      simpa [View.gain,View.goOn,e] using h.fresh hu
    idle := fun {u} hu h0 => by
      have e : u ≠ t := fun e => idle (e ▸ h0)
      rw [point e]
      simpa [View.gain,View.goOn,e] using h.idle hu h0
    ceil_lt := fun {n} hn => by
      rw [ceil] at hn ⊢
      exact h.ceil_lt hn
    reserved := fun {n} hn => by
      rw [ceil] at hn ⊢
      exact h.reserved hn
    ceil_inst := fun {u n} hu hn => by
      rw [ceil] at hn ⊢
      exact h.ceil_inst hu hn
    ceil_inj := fun {n l} hn hl => by
      rw [ceil] at hn hl
      exact h.ceil_inj hn (by rwa [ceil] at hl)
    held_owner := fun {u n} hn => by
      rw [owner]
      rcases held.mp hn with hn' | ⟨rfl,rfl⟩
      · have e : n ≠ m := by
          rintro rfl
          exact nobody hn'
        rw [if_neg e]
        exact ⟨(h.held_owner hn').1,fun p w hu => (h.held_owner hn').2 p w (back hu (by simp)).2⟩
      · exact ⟨if_pos rfl,fun p w hu => (back hu (by simp)).1 rfl⟩
    nodup := fun u => by
      by_cases e : u = t
      · subst e
        simpa [View.gain,View.goOn] using ⟨unheld,h.nodup u⟩
      · simpa [View.gain,View.goOn,e] using h.nodup u
    owned := fun {n} hn => by
      by_cases e : n = m
      · rw [owner,if_pos e]
        exact ⟨inst,Or.inl (held.mpr (Or.inr ⟨rfl,e⟩))⟩
      · rw [owner,if_neg e] at hn ⊢
        refine ⟨(h.owned hn).1,(h.owned hn).2.imp (fun hm => held.mpr (Or.inl hm)) ?_⟩
        rintro ⟨p,w,hu,hp⟩
        refine ⟨p,w,(point fun he => ?_).trans hu,hp⟩
        exact e (Obj.mutex.inj (out (he ▸ hu)).2)
    assigned := fun {u n p w} hu hp => by
      obtain ⟨e,hu'⟩ := back hu (by simp)
      have ho := h.assigned hu' hp
      by_cases en : n = m
      · subst en
        have := (h.handle (h.pending hu').1).1
        rcases free with hf | hf <;> rw [ho] at hf
        · omega
        · exact absurd hf e
      · rw [owner,if_neg en]
        exact ho
    busy := fun {n} hc => by
      by_cases e : n = m
      · subst e
        exact Or.inr ⟨by simp [View.gain,View.state],by rwa [owner,if_pos rfl]⟩
      · rw [owner,if_neg e]
        simpa [View.gain,View.goOn,View.state,e] using h.busy hc
    unused := fun {n} hc => by
      have e : n ≠ m := by
        rintro rfl
        exact hc created
      rw [owner,if_neg e,ceil]
      exact h.unused hc }

/-- The running task moves to another priority that it has a right to. -/
theorem changePrio (h : Sound cfg v) {t q : ℕ} (slot : ℕ → ℕ) (inst : v.installed t)
    (run : v.point t = .run) (lt : q < cfg.width) (mine : slot q = t)
    (others : ∀ {u}, v.installed u → u ≠ t → v.prio u ≠ q ∧ slot (v.prio u) = u)
    (same : ∀ {u}, v.installed u → slot (v.inst u) = u)
    (full : ∀ {n}, 0 < v.ceiling n → slot (v.ceiling n) ≠ emptyPrio)
    (level : q = v.inst t ∨ ∃ m ∈ v.held t, 0 < v.ceiling m ∧ q = v.ceiling m) :
    Sound cfg { v.changePrio t q with slot := slot } := by
  have prio : ∀ {u}, u ≠ t → (v.changePrio t q).prio u = v.prio u := fun e => by
    simp [View.changePrio,e]
  have self : (v.changePrio t q).prio t = q := by simp [View.changePrio]
  have asleep : ∀ {u}, v.point u ≠ .run → u ≠ t := by
    rintro u hu rfl
    exact hu run
  have ready : ∀ {u}, v.installed u → u ≠ t → v.prio u ∈ (v.changePrio t q).ready →
      v.prio u ∈ v.ready := fun hu e hr => by
    refine Finset.mem_of_mem_erase ((Finset.mem_insert.mp hr).resolve_left (others hu e).1)
  exact
  { h with
    prio_lt := fun {u} hu => by
      by_cases e : u = t
      · subst e
        exact self.symm ▸ lt
      · exact (prio e).symm ▸ h.prio_lt hu
    slot := fun {u} hu => by
      by_cases e : u = t
      · subst e
        exact (congrArg slot self).trans mine
      · exact (congrArg slot (prio e)).trans (others hu e).2
    inst_slot := same
    level := fun {u} hu => by
      by_cases e : u = t
      · subst e
        exact self.symm ▸ level
      · exact (prio e).symm ▸ h.level hu
    ready := fun {p} hp => by
      rcases Finset.mem_insert.mp hp with rfl | hp
      · exact ⟨t,inst,self⟩
      · obtain ⟨hne,hp⟩ := Finset.mem_erase.mp hp
        obtain ⟨u,hu,rfl⟩ := h.ready hp
        refine ⟨u,hu,prio ?_⟩
        rintro rfl
        exact hne rfl
    pending := fun {u p w o} hu => by
      obtain ⟨hi,hp,hc⟩ := h.pending hu
      exact ⟨hi,(prio (asleep (by simp [show v.point u = _ from hu]))).trans hp,hc⟩
    asleep := fun {u p w o} hu hp hr => by
      obtain ⟨hi,rfl,hc⟩ := h.pending hu
      exact h.asleep hu hp (ready hi (asleep (by simp [show v.point u = _ from hu])) hr)
    napping := fun {u w} hu => by
      have e := asleep (u := u) (by simp [show v.point u = _ from hu])
      refine ⟨(h.napping hu).1,fun hr => (h.napping hu).2 (ready (h.napping hu).1 e ?_)⟩
      rwa [← prio e]
    reserved := full }

theorem lift (h : Sound cfg v) {t m : ℕ} (run : v.point t = .run) (hm : m ∈ v.held t) :
    Sound cfg (v.lift t m) := by
  unfold View.lift
  split_ifs with hlt
  · have hpos : 0 < v.ceiling m := by omega
    have apart : ∀ {u}, v.installed u → u ≠ t → v.prio u ≠ v.ceiling m := fun hu e he => by
      refine e ?_
      rw [← (h.held_owner (h.held_of_prio hu hpos he)).1,(h.held_owner hm).1]
    refine h.changePrio _ (h.held_installed hm) run (h.ceil_lt hpos) (by simp) ?_ ?_ ?_
      (Or.inr ⟨m,hm,hpos,rfl⟩)
    · intro u hu e
      exact ⟨apart hu e,by rw [Function.update_of_ne (apart hu e)]; exact h.slot hu⟩
    · intro u hu
      rw [Function.update_of_ne (h.ceil_inst hu hpos).symm]
      exact h.inst_slot hu
    · intro n hn
      by_cases e : v.ceiling n = v.ceiling m
      · rw [e,Function.update_self]
        exact h.handle_lt_empty (h.held_installed hm)
      · rw [Function.update_of_ne e]
        exact h.reserved hn
  · exact h

theorem save (h : Sound cfg v) (t m : ℕ) : Sound cfg (v.save t m) := by
  have ceil : ∀ n, (v.save t m).ceiling n = v.ceiling n := fun n => by
    by_cases e : n = m <;> simp [View.save,View.ceiling,e]
  have owner : ∀ n, (v.save t m).owner n = v.owner n := fun n => by
    by_cases e : n = m <;> simp [View.save,View.owner,e]
  have state : ∀ n, (v.save t m).state n = v.state n := fun n => by
    by_cases e : n = m <;> simp [View.save,View.state,e]
  exact
  { h with
    level := fun hu => by
      simp only [ceil]
      exact h.level hu
    ceil_lt := fun {n} => by
      rw [ceil]
      exact h.ceil_lt
    reserved := fun {n} => by
      rw [ceil]
      exact h.reserved
    ceil_inst := fun {u n} => by
      rw [ceil]
      exact h.ceil_inst
    ceil_inj := fun {n l} => by
      rw [ceil,ceil]
      exact h.ceil_inj
    held_owner := fun {u n} => by
      rw [owner]
      exact h.held_owner
    owned := fun {n} => by
      rw [owner]
      exact h.owned
    assigned := fun {u n p w} => by
      rw [owner]
      exact h.assigned
    busy := fun {n} => by
      rw [owner,state]
      exact h.busy
    unused := fun {n} => by
      rw [owner,ceil]
      exact h.unused }

/-- Behind the restore the mutex no longer carries the priority of its owner. -/
theorem restore (h : Sound cfg v) {t m : ℕ} (run : v.point t = .run) (hm : m ∈ v.held t)
    (back : v.Restorable t m) : Sound cfg (v.restore t m) ∧
      ((v.restore t m).prio t = v.inst t ∨ ∃ n ∈ v.held t, n ≠ m ∧ 0 < v.ceiling n ∧
        (v.restore t m).prio t = v.ceiling n) := by
  have inst := h.held_installed hm
  have prio : (v.restore t m).prio t = v.saved m := by
    unfold View.restore
    split_ifs with e
    · exact e
    · simp [View.changePrio]
  have settled : v.saved m = v.inst t ∨ ∃ n ∈ v.held t, n ≠ m ∧ 0 < v.ceiling n ∧
      v.saved m = v.ceiling n :=
    back.imp_right fun ⟨n,hn,hne,hpos,hs,_⟩ => ⟨n,hn,hne,hpos,hs⟩
  refine ⟨?_,prio ▸ settled⟩
  have mine : v.slot (v.saved m) = t := by
    rcases back with e | ⟨n,_,_,_,e,hs⟩
    · rw [e]
      exact h.inst_slot inst
    · rwa [e]
  unfold View.restore
  split_ifs with e
  · exact h
  · refine h.changePrio v.slot inst run ?_ mine ?_ h.inst_slot h.reserved ?_
    · rcases settled with e | ⟨n,_,_,hpos,e⟩ <;> rw [e]
      · exact h.inst_lt inst
      · exact h.ceil_lt hpos
    · refine fun hu hne => ⟨fun hp => hne ?_,h.slot hu⟩
      rw [← h.slot hu,hp,mine]
    · exact settled.imp_right fun ⟨n,hn,_,hpos,hs⟩ => ⟨n,hn,hpos,hs⟩

/-! A task gives a mutex back. -/

theorem mem_erase_held (h : Sound cfg v) {t m u n : ℕ} (hm : m ∈ v.held t) :
    n ∈ Function.update v.held t ((v.held t).erase m) u ↔ n ∈ v.held u ∧ n ≠ m := by
  by_cases e : u = t
  · subst e
    simp [(h.nodup u).mem_erase_iff,and_comm]
  · have hne : n ∈ v.held u → n ≠ m := by
      rintro hn rfl
      exact e ((h.held_owner hn).1.symm.trans (h.held_owner hm).1)
    simpa [e] using hne

theorem nodup_erase_held (h : Sound cfg v) (t m u : ℕ) :
    (Function.update v.held t ((v.held t).erase m) u).Nodup := by
  by_cases e : u = t
  · subst e
    simpa using (h.nodup u).erase m
  · simpa [e] using h.nodup u

/-- What holds a task at its priority without the mutex holds the others without it, too. -/
theorem level_apart (h : Sound cfg v) {t m u : ℕ} (hm : m ∈ v.held t)
    (settled : v.prio t = v.inst t ∨ ∃ n ∈ v.held t, n ≠ m ∧ 0 < v.ceiling n ∧
      v.prio t = v.ceiling n) (hu : v.installed u) : v.prio u = v.inst u ∨
      ∃ n ∈ v.held u, n ≠ m ∧ 0 < v.ceiling n ∧ v.prio u = v.ceiling n := by
  by_cases e : u = t
  · exact e ▸ settled
  · refine (h.level hu).imp_right ?_
    rintro ⟨n,hn,hc⟩
    refine ⟨n,hn,?_,hc⟩
    rintro rfl
    exact e ((h.held_owner hn).1.symm.trans (h.held_owner hm).1)

theorem drop (h : Sound cfg v) {t m : ℕ} (hm : m ∈ v.held t) (alone : v.waiting (.mutex m) = ∅)
    (settled : v.prio t = v.inst t ∨ ∃ n ∈ v.held t, n ≠ m ∧ 0 < v.ceiling n ∧
      v.prio t = v.ceiling n) : Sound cfg (v.drop t m) := by
  have ceil : ∀ n, (v.drop t m).ceiling n = v.ceiling n := fun n => by
    by_cases e : n = m <;> simp [View.drop,View.ceiling,e]
  have owner : ∀ n, (v.drop t m).owner n = if n = m then 0 else v.owner n := fun n => by
    by_cases e : n = m <;> simp [View.drop,View.owner,e]
  have held : ∀ {u n}, n ∈ (v.drop t m).held u ↔ n ∈ v.held u ∧ n ≠ m := by
    intro u n
    exact h.mem_erase_held hm
  have unslotted : ∀ {p}, (0 < v.ceiling m → p ≠ v.ceiling m) → (v.drop t m).slot p = v.slot p := by
    intro p hp
    simp only [View.drop]
    split_ifs with hpos
    · exact Function.update_of_ne (hp hpos) _ _
    · rfl
  have settled' : ∀ {u}, v.installed u → v.prio u = v.inst u ∨
      ∃ n ∈ v.held u, n ≠ m ∧ 0 < v.ceiling n ∧ v.prio u = v.ceiling n := by
    intro u hu
    exact h.level_apart hm settled hu
  exact
  { h with
    slot := fun {u} hu => by
      refine (unslotted fun hpos he => ?_).trans (h.slot hu)
      rcases settled' hu with hi | ⟨n,_,hne,_,hc⟩
      · exact h.ceil_inst hu hpos (he.symm.trans hi)
      · exact hne (h.ceil_inj hpos (he.symm.trans hc)).symm
    inst_slot := fun hu =>
      (unslotted fun hpos => (h.ceil_inst hu hpos).symm).trans (h.inst_slot hu)
    level := fun hu => by
      refine (settled' hu).imp_right ?_
      rintro ⟨n,hn,hne,hc⟩
      exact ⟨n,held.mpr ⟨hn,hne⟩,by rw [ceil]; exact hc⟩
    fresh := fun {u} hu => by
      refine ⟨(h.fresh hu).1,List.eq_nil_iff_forall_not_mem.mpr fun n hn => ?_⟩
      simpa [(h.fresh hu).2] using (held.mp hn).1
    idle := fun {u} hu h0 => by
      refine ⟨(h.idle hu h0).1,List.eq_nil_iff_forall_not_mem.mpr fun n hn => ?_⟩
      simpa [(h.idle hu h0).2] using (held.mp hn).1
    ceil_lt := fun {n} hn => by
      rw [ceil] at hn ⊢
      exact h.ceil_lt hn
    reserved := fun {n} hn => by
      rw [ceil] at hn ⊢
      by_cases e : n = m
      · subst e
        simp only [View.drop,hn,if_true,Function.update_self]
        decide
      · rw [unslotted fun hpos he => e (h.ceil_inj hpos he.symm).symm]
        exact h.reserved hn
    ceil_inst := fun {u n} hu hn => by
      rw [ceil] at hn ⊢
      exact h.ceil_inst hu hn
    ceil_inj := fun {n l} hn hl => by
      rw [ceil] at hn hl
      exact h.ceil_inj hn (by rwa [ceil] at hl)
    held_owner := fun {u n} hn => by
      rw [owner,if_neg (held.mp hn).2]
      exact h.held_owner (held.mp hn).1
    nodup := h.nodup_erase_held t m
    owned := fun {n} hn => by
      rw [owner] at hn ⊢
      split_ifs at hn ⊢ with e
      · exact absurd rfl hn
      · exact ⟨(h.owned hn).1,(h.owned hn).2.imp_left fun hh => held.mpr ⟨hh,e⟩⟩
    assigned := fun {u n p w} hu hp => by
      have e : n ≠ m := by
        rintro rfl
        have := h.assigned hu hp
        rw [(h.held_owner hm).1] at this
        exact (h.held_owner hm).2 p w (this ▸ hu)
      rw [owner,if_neg e]
      exact h.assigned hu hp
    busy := fun {n} hc => by
      by_cases e : n = m
      · subst e
        exact Or.inl ⟨by simp [View.drop,View.state],by rw [owner,if_pos rfl],alone⟩
      · rw [owner,if_neg e]
        simpa [View.drop,View.state,e] using h.busy hc
    unused := fun {n} hc => by
      rw [owner,ceil]
      refine ⟨?_,(h.unused hc).2⟩
      split_ifs
      · rfl
      · exact (h.unused hc).1 }

theorem handOver (h : Sound cfg v) {t m p : ℕ} (hm : m ∈ v.held t) (top : v.IsTop (.mutex m) p)
    (settled : v.prio t = v.inst t ∨ ∃ n ∈ v.held t, n ≠ m ∧ 0 < v.ceiling n ∧
      v.prio t = v.ceiling n) : Sound cfg (v.handOver t m p) := by
  obtain ⟨s,w,hs,hi,hp⟩ := h.waiter top.1
  have mine : v.slot p = s := hp ▸ h.slot hi
  have pos : s ≠ 0 := by
    have := (h.handle hi).1
    omega
  have ceil : ∀ n, (v.handOver t m p).ceiling n = v.ceiling n := fun n => by
    by_cases e : n = m <;> simp [View.handOver,View.ceiling,e]
  have owner : ∀ n, (v.handOver t m p).owner n = if n = m then s else v.owner n := fun n => by
    by_cases e : n = m <;> simp [View.handOver,View.owner,e,mine]
  have state : ∀ n, (v.handOver t m p).state n = v.state n := fun n => by
    by_cases e : n = m <;> simp [View.handOver,View.state,e]
  have held : ∀ {u n}, n ∈ (v.handOver t m p).held u ↔ n ∈ v.held u ∧ n ≠ m := by
    intro u n
    exact h.mem_erase_held hm
  have fewer : ∀ {q r}, r ∈ (v.handOver t m p).waiting q ↔
      r ∈ v.waiting q ∧ (q = .mutex m → r ≠ p) := by
    intro q r
    by_cases e : q = .mutex m <;> simp [View.handOver,e,and_comm]
  have settled' : ∀ {u}, v.installed u → v.prio u = v.inst u ∨
      ∃ n ∈ v.held u, n ≠ m ∧ 0 < v.ceiling n ∧ v.prio u = v.ceiling n := by
    intro u hu
    exact h.level_apart hm settled hu
  exact
  { h with
    count := h.count_erase top.1
    level := fun hu => by
      refine (settled' hu).imp_right ?_
      rintro ⟨n,hn,hne,hc⟩
      exact ⟨n,held.mpr ⟨hn,hne⟩,by rw [ceil]; exact hc⟩
    ready := fun {q} hq => by
      rcases Finset.mem_insert.mp hq with rfl | hq
      · exact ⟨s,hi,hp⟩
      · exact h.ready hq
    waits := fun hq => h.waits (fewer.mp hq).1
    asleep := fun {u q w' o} hu hq hr => by
      rcases Finset.mem_insert.mp hr with rfl | hr
      · exact absurd rfl ((fewer.mp hq).2 (h.waiter_unique hu top.1).symm)
      · exact h.asleep hu (fewer.mp hq).1 hr
    napping := fun {u w'} hu => by
      refine ⟨(h.napping hu).1,fun hr => ?_⟩
      rcases Finset.mem_insert.mp hr with e | hr
      · have := h.prio_inj (h.napping hu).1 hi (e.trans hp.symm)
        subst this
        exact absurd (hs.symm.trans hu) (by simp)
      · exact (h.napping hu).2 hr
    fresh := fun {u} hu => by
      refine ⟨(h.fresh hu).1,List.eq_nil_iff_forall_not_mem.mpr fun n hn => ?_⟩
      simpa [(h.fresh hu).2] using (held.mp hn).1
    idle := fun {u} hu h0 => by
      refine ⟨(h.idle hu h0).1,List.eq_nil_iff_forall_not_mem.mpr fun n hn => ?_⟩
      simpa [(h.idle hu h0).2] using (held.mp hn).1
    ceil_lt := fun {n} hn => by
      rw [ceil] at hn ⊢
      exact h.ceil_lt hn
    reserved := fun {n} hn => by
      rw [ceil] at hn ⊢
      exact h.reserved hn
    ceil_inst := fun {u n} hu hn => by
      rw [ceil] at hn ⊢
      exact h.ceil_inst hu hn
    ceil_inj := fun {n l} hn hl => by
      rw [ceil] at hn hl
      exact h.ceil_inj hn (by rwa [ceil] at hl)
    held_owner := fun {u n} hn => by
      rw [owner,if_neg (held.mp hn).2]
      exact h.held_owner (held.mp hn).1
    nodup := h.nodup_erase_held t m
    owned := fun {n} hn => by
      rw [owner] at hn ⊢
      split_ifs at hn ⊢ with e
      · subst e
        exact ⟨hi,Or.inr ⟨p,w,hs,fun hq => (fewer.mp hq).2 rfl rfl⟩⟩
      · refine ⟨(h.owned hn).1,(h.owned hn).2.imp (fun hh => held.mpr ⟨hh,e⟩) ?_⟩
        rintro ⟨q,w',hu,hq⟩
        exact ⟨q,w',hu,fun hq' => hq (fewer.mp hq').1⟩
    assigned := fun {u n q w'} hu hq => by
      rw [owner]
      by_cases e : n = m
      · subst e
        rw [if_pos rfl]
        by_cases hqp : q = p
        · exact h.prio_inj hi (h.pending hu).1 (hp.trans ((h.pending hu).2.1.trans hqp).symm)
        · have ho := h.assigned hu fun hq' => hq (fewer.mpr ⟨hq',fun _ => hqp⟩)
          rw [(h.held_owner hm).1] at ho
          exact absurd hu (ho ▸ (h.held_owner hm).2 q w')
      · rw [if_neg e]
        exact h.assigned hu fun hq' => hq (fewer.mpr ⟨hq',fun he => absurd (Obj.mutex.inj he) e⟩)
    busy := fun {n} hc => by
      rw [owner,state]
      by_cases e : n = m
      · subst e
        rcases h.busy hc with ⟨_,_,hw⟩ | ⟨hb,_⟩
        · exact absurd top.1 (by simp [hw])
        · exact Or.inr ⟨hb,by rwa [if_pos rfl]⟩
      · rw [if_neg e]
        refine (h.busy hc).imp_left ?_
        rintro ⟨hb,ho,hw⟩
        refine ⟨hb,ho,?_⟩
        refine Finset.eq_empty_of_forall_notMem fun r hr => ?_
        simpa [hw] using (fewer.mp hr).1
    unused := fun {n} hc => by
      rw [owner,ceil]
      have e : n ≠ m := by
        rintro rfl
        exact hc (h.pending hs).2.2
      rw [if_neg e]
      exact h.unused hc }

/-- Nobody holds a mutex that is free. -/
theorem unheld_of_free (h : Sound cfg v) {m : ℕ} (created : v.created (.mutex m))
    (free : v.state m = availableResource) (u : ℕ) : m ∉ v.held u := by
  intro hm
  have pos := (h.handle (h.held_installed hm)).1
  rcases h.busy created with ⟨_,ho,_⟩ | ⟨hb,_⟩
  · have := (h.held_owner hm).1.symm.trans ho
    omega
  · exact absurd (hb.symm.trans free) (by decide)

/-- Nobody holds a mutex whose new owner has not run yet. -/
theorem unheld_of_assigned (h : Sound cfg v) {t m p w : ℕ} (point : v.point t = .pend (.mutex m) p w)
    (selected : p ∉ v.waiting (.mutex m)) (u : ℕ) : m ∉ v.held u := by
  intro hm
  obtain ⟨ho,hn⟩ := h.held_owner hm
  obtain rfl : t = u := (h.assigned point selected).symm.trans ho
  exact hn p w point

end Sound

/-- The invariant is inductive: no move leaves it. -/
theorem Move.sound {P : Policy} {w : View} (hm : Move cfg P v w) (h : Sound cfg v)
    (back : ∀ {t m}, m ∈ v.held t → P.release v t m → v.Restorable t m) : Sound cfg w := by
  cases hm with
  | enroll fresh range lt free idle met => exact h.enroll fresh range lt free idle
  | reserve free => exact h.reserve free
  | establish unused other => exact h.establish unused other
  | establishMutex unused lt reserved apart => exact h.establishMutex unused lt reserved apart
  | abolish unused other => exact h.abolish unused other
  | abolishMutex unused free => exact h.abolishMutex unused free
  | sleep inst idle run created busy met forever => exact h.sleep inst idle run created busy forever
  | nap inst idle run => exact h.nap inst idle run
  | rouse top other => exact h.rouse top other
  | expire inst due => exact h.expire inst due
  | @goOn t p w d o point other selected late =>
    refine h.goOn (fun hq => ?_) late
    rw [point,Point.pend.injEq] at hq
    exact ⟨hq.1 ▸ hq.2.1 ▸ selected,hq.1 ▸ other⟩
  | wakeNap point ready => exact h.goOn (by simp [point]) ((h.napping point).2 ready)
  | giveUp point waits late => exact h.giveUp point waits late
  | @take t m inst idle run created free met =>
    have same : v.goOn t (v.wake t) = v := by
      simp [View.goOn,← run]
    have owner : v.owner m = 0 := by
      rcases h.busy created with ⟨_,ho,_⟩ | ⟨hb,_⟩
      · exact ho
      · exact absurd (hb.symm.trans free) (by decide)
    have unheld : m ∉ v.held t := fun hn => by
      have := (h.handle inst).1
      rw [(h.held_owner hn).1] at owner
      omega
    have late : cfg.tickCountOverflow ≤ v.wake t := by
      by_contra hlt
      rcases h.timed inst (by omega) with ⟨_,_,_,hp,_⟩ | ⟨_,hp⟩ <;> simp [run] at hp
    have hg := h.gain (d := v.wake t) inst idle created (Or.inl owner) unheld (by simp [run]) late
    rw [same] at hg
    exact (hg.save t m).lift run (by simp [View.save,View.gain])
  | @obtain t m p w d point selected late =>
    have hi := (h.pending point).1
    have owner := h.assigned point selected
    have unheld : m ∉ v.held t := fun hn => (h.held_owner hn).2 p w point
    have idle : v.inst t ≠ 0 := fun h0 => by simp [(h.idle hi h0).1] at point
    have hg := h.gain hi idle (h.pending point).2.2 (Or.inr owner) unheld (fun hq => by
      rw [point,Point.pend.injEq] at hq
      exact ⟨hq.1 ▸ hq.2.1 ▸ selected,hq.1.symm⟩) late
    exact (hg.save t m).lift (by simp [View.save,View.gain,View.goOn]) (by simp [View.save,View.gain])
  | @release t m run owns met alone =>
    obtain ⟨hs,settled⟩ := h.restore run owns (back owns met)
    unfold View.restore at hs settled ⊢
    split_ifs at hs settled ⊢ <;> exact hs.drop owns alone settled
  | @handOver t m p run owns met top =>
    obtain ⟨hs,settled⟩ := h.restore run owns (back owns met)
    unfold View.restore at hs settled ⊢
    split_ifs at hs settled ⊢ <;> exact hs.handOver owns top settled

end Brtos.View
