import DeviceLab.Proofs.Scheduler.Chores

namespace DeviceLab

namespace Scheduler

/-- From `s` to `t` some runs were added, all listed and counted, and nothing was sent. -/
structure TakesUp (s t : Scheduler) (added : List Run) : Prop where
  runs : t.runs = s.runs ++ added
  inFlight : t.inFlight = s.inFlight + added.length
  running : ∀ c ∈ t.running, c ∈ s.running ∨ ∃ r ∈ added, r.id = c.id
  channel : t.channel = s.channel
  stopped : t.stopped = s.stopped
  accepted : t.accepted = s.accepted

namespace TakesUp

variable {s t u : Scheduler} {added more : List Run}

theorem keep (hruns : t.runs = s.runs) (hinFlight : t.inFlight = s.inFlight)
    (hrunning : t.running = s.running) (hchannel : t.channel = s.channel)
    (hstopped : t.stopped = s.stopped) (haccepted : t.accepted = s.accepted) :
    s.TakesUp t [] where
  runs := hruns.trans (List.append_nil _).symm
  inFlight := hinFlight
  running := fun _ hc => .inl (hrunning ▸ hc)
  channel := hchannel
  stopped := hstopped
  accepted := haccepted

theorem trans (hst : s.TakesUp t added) (htu : t.TakesUp u more) :
    s.TakesUp u (added ++ more) where
  runs := by rw [htu.runs, hst.runs, List.append_assoc]
  inFlight := by rw [htu.inFlight, hst.inFlight, List.length_append, Nat.add_assoc]
  running := by
    intro c hc
    rcases htu.running c hc with hc | ⟨r, hr, hid⟩
    · exact (hst.running c hc).imp_right fun ⟨r, hr, hid⟩ =>
        ⟨r, List.mem_append_left _ hr, hid⟩
    · exact .inr ⟨r, List.mem_append_right _ hr, hid⟩
  channel := htu.channel.trans hst.channel
  stopped := htu.stopped.trans hst.stopped
  accepted := htu.accepted.trans hst.accepted

theorem of_takesIn (h : s.TakesIn t) : s.TakesUp t [] := by
  obtain ⟨answers, hnotices, hanswers⟩ := h.notices
  have haccepted : t.accepted = s.accepted := by
    have hnone : answers.filterMap Notice.accepted? = [] := by
      apply List.filterMap_eq_nil_iff.mpr
      intro n hn
      have hanswer := hanswers n hn
      cases n <;> first | rfl | cases hanswer
    rw [accepted_of_notices hnotices, hnone]
    exact List.append_nil _
  obtain ⟨queue, nextId, watched, signalled, answers, rfl, -⟩ := h
  exact keep rfl rfl rfl rfl rfl haccepted

theorem take (s : Scheduler) (r : Run) : s.TakesUp (s.take r) [r] where
  runs := rfl
  inFlight := rfl
  running := by
    intro c hc
    rcases eq_or_mem_of_mem_enterBy hc with rfl | hc
    · exact .inr ⟨r, List.mem_singleton_self r, rfl⟩
    · exact .inl hc
  channel := rfl
  stopped := rfl
  accepted := rfl

theorem takeAll (started : List (QueuedCommand × Device)) (s : Scheduler) :
    s.TakesUp (started.foldl (fun s (q, d) => s.take { entry := q, device := d }) s)
      (started.map fun p => { entry := p.1, device := p.2 }) := by
  induction started generalizing s with
  | nil => exact keep rfl rfl rfl rfl rfl rfl
  | cons p rest ih => exact (take s { entry := p.1, device := p.2 }).trans (ih _)

theorem scheduleReady (s : Scheduler) :
    s.TakesUp s.scheduleReady
      (s.allocation.started.map fun p => { entry := p.1, device := p.2 }) := by
  let served : Scheduler := { s with
    pool := s.allocation.pool
    queue := ⟨s.allocation.waiting, s.queue.ascending.sublist (allocate_waiting_sublist ..)⟩ }
  have hserved : s.TakesUp served [] := keep rfl rfl rfl rfl rfl rfl
  exact hserved.trans (takeAll s.allocation.started served)

theorem release (s : Scheduler) (d : Device) (report : ReturnReport) :
    s.TakesUp (s.release d report) [] := by
  obtain ⟨signalled, hrelease⟩ := s.exists_release_eq d report
  rw [hrelease]
  exact keep rfl rfl rfl rfl rfl rfl

theorem execCommand (s : Scheduler) (listener : String) (d : Device) (args : List String) :
    ∃ added, s.TakesUp (s.execCommand listener d args).2 added := by
  rcases s.execCommand_refused_or_taken listener d args with ⟨error, heq⟩ | ⟨-, c, -, heq⟩
  · rw [heq]
    exact ⟨[], release s d .available⟩
  · have hnumbered : s.TakesUp { s with nextId := s.nextId + 1 } [] :=
      keep rfl rfl rfl rfl rfl rfl
    rw [heq]
    exact ⟨_, hnumbered.trans (take _ _)⟩

end TakesUp

end Scheduler

theorem World.exists_takesUp_act (w : World) {a : World.Act} (hpass : a ≠ .pass)
    (hstep : ∀ id invocation, a ≠ .step id invocation) :
    ∃ added, w.scheduler.TakesUp (w.act a).scheduler added ∧
      ((Move.outside a).submits = false → added = [] ∧
        (w.scheduler.queue.entries = [] → (w.act a).scheduler.queue.entries = [])) := by
  have hdoes := w.does a
  generalize w.act a = v at hdoes
  cases hdoes with
  | nothing | aside | shutDown =>
      exact ⟨[], .keep rfl rfl rfl rfl rfl rfl, fun _ => ⟨rfl, fun hempty => hempty⟩⟩
  | added hadd => exact ⟨[], .of_takesIn (.addCommand hadd), nofun⟩
  | addedFile hadd => exact ⟨[], .of_takesIn (.addFile hadd), nofun⟩
  | notified hnotify => exact ⟨[], .of_takesIn (.notifyChanged hnotify), nofun⟩
  | removed => exact ⟨[], .keep rfl rfl rfl rfl rfl rfl, fun _ => ⟨rfl, fun _ => rfl⟩⟩
  | passed => exact absurd rfl hpass
  | stepped => exact absurd rfl (hstep _ _)
  | @executed listener d args hd =>
      obtain ⟨added, hup⟩ := Scheduler.TakesUp.execCommand w.scheduler listener d args
      exact ⟨added, hup, nofun⟩

/-- The books agree with what the runs have still to do. -/
structure Accounted (s : Scheduler) (chores : List Chore) : Prop where
  counted : s.runs.length + chores.countP Chore.owes ≤ s.inFlight
  listed : ∀ c ∈ s.running, ∃ r ∈ s.runs, r.id = c.id
  fits : ∀ e ∈ chores, e.Fits
  nodup : ((chores.filter Chore.holds).map Chore.id).Nodup
  present : ∀ e ∈ chores, e.holds = true → ∃ r ∈ s.runs, r.id = e.id

namespace Accounted

variable {s t : Scheduler} {chores front back : List Chore} {id : Nat} {deed : Deed}
  {rest : List Deed}

theorem takesUp (h : Accounted s chores) {added : List Run} (hup : s.TakesUp t added) :
    Accounted t chores where
  counted := by
    have hcounted := h.counted
    rw [hup.runs, hup.inFlight, List.length_append]
    omega
  listed := by
    intro c hc
    rw [hup.runs]
    rcases hup.running c hc with hc | ⟨r, hr, hid⟩
    · obtain ⟨r, hr, hid⟩ := h.listed c hc
      exact ⟨r, List.mem_append_left _ hr, hid⟩
    · exact ⟨r, List.mem_append_right _ hr, hid⟩
  fits := h.fits
  nodup := h.nodup
  present := by
    intro e he hholds
    obtain ⟨r, hr, hid⟩ := h.present e he hholds
    exact ⟨r, hup.runs ▸ List.mem_append_left _ hr, hid⟩

theorem resume (h : Accounted s chores) {r : Run} (hr : r ∈ s.runs)
    (hfree : ∀ e ∈ chores, e.id = r.id → e.holds = false) {deeds : List Deed}
    (hdeeds : Holding r.id deeds) : Accounted s (chores ++ [⟨r.id, deeds⟩]) where
  counted := by
    have hnone : Chore.owes ⟨r.id, deeds⟩ = false :=
      Chore.owes_of_holds (Chore.holds_of_holding hdeeds)
    rw [List.countP_append, List.countP_singleton, hnone]
    exact h.counted
  listed := h.listed
  fits := by
    intro e he
    rcases List.mem_append.mp he with he | he
    · exact h.fits e he
    · rw [List.mem_singleton.mp he]
      exact .holding hdeeds
  nodup := by
    rw [List.filter_append, List.map_append, List.filter_singleton,
      Chore.holds_of_holding hdeeds]
    refine List.nodup_append.mpr ⟨h.nodup, List.nodup_singleton _, ?_⟩
    intro a ha b hb heq
    obtain ⟨e, he, rfl⟩ := List.mem_map.mp ha
    obtain ⟨hmem, hholds⟩ := List.mem_filter.mp he
    rw [hfree e hmem (heq.trans (List.mem_singleton.mp hb))] at hholds
    cases hholds
  present := by
    intro e he hholds
    rcases List.mem_append.mp he with he | he
    · exact h.present e he hholds
    · rw [List.mem_singleton.mp he]
      exact ⟨r, hr, rfl⟩

theorem nodup_perform
    (h : (((front ++ ⟨id, deed :: rest⟩ :: back).filter Chore.holds).map Chore.id).Nodup) :
    (((front ++ ⟨id, rest⟩ :: back).filter Chore.holds).map Chore.id).Nodup := by
  refine h.sublist ?_
  rw [List.filter_append, List.filter_append, List.map_append, List.map_append]
  refine (List.Sublist.refl _).append ?_
  rw [List.filter_cons, List.filter_cons]
  cases hnew : Chore.holds ⟨id, rest⟩ with
  | true =>
      rw [if_pos rfl, if_pos (Chore.holds_of_rest hnew)]
      exact List.Sublist.refl _
  | false =>
      rw [if_neg Bool.false_ne_true]
      split
      · exact List.sublist_cons_self ..
      · exact List.Sublist.refl _

theorem exists_of_holds {e : Chore} (he : e ∈ front ++ ⟨id, rest⟩ :: back)
    (hholds : e.holds = true) :
    ∃ old ∈ front ++ ⟨id, deed :: rest⟩ :: back, old.holds = true ∧ old.id = e.id := by
  rcases List.mem_append.mp he with he | he
  · exact ⟨e, List.mem_append_left _ he, hholds, rfl⟩
  · rcases List.mem_cons.mp he with rfl | he
    · exact ⟨_, List.mem_append_right _ List.mem_cons_self, Chore.holds_of_rest hholds, rfl⟩
    · exact ⟨e, List.mem_append_right _ (List.mem_cons_of_mem _ he), hholds, rfl⟩

theorem ne_of_holds (h : Accounted s (front ++ ⟨id, deed :: rest⟩ :: back))
    (hold : Chore.holds ⟨id, deed :: rest⟩ = true) (hnew : Chore.holds ⟨id, rest⟩ = false)
    {e : Chore} (he : e ∈ front ++ ⟨id, rest⟩ :: back) (hholds : e.holds = true) :
    e.id ≠ id := by
  have hnodup := h.nodup
  rw [List.filter_append, List.map_append, List.filter_cons, if_pos hold, List.map_cons,
    List.nodup_middle, ← List.map_append, ← List.filter_append] at hnodup
  intro heq
  have hmem : e ∈ (front ++ back).filter Chore.holds := by
    refine List.mem_filter.mpr ⟨?_, hholds⟩
    rcases List.mem_append.mp he with he | he
    · exact List.mem_append_left _ he
    · rcases List.mem_cons.mp he with rfl | he
      · rw [hnew] at hholds
        cases hholds
      · exact List.mem_append_right _ he
  have hid : e.id ∈ ((front ++ back).filter Chore.holds).map Chore.id := List.mem_map_of_mem hmem
  exact (List.nodup_cons.mp hnodup).1 (heq ▸ hid)

theorem fits_perform (h : ∀ e ∈ front ++ ⟨id, deed :: rest⟩ :: back, e.Fits)
    (hnext : Chore.Next id deed rest) : ∀ e ∈ front ++ ⟨id, rest⟩ :: back, e.Fits := by
  intro e he
  rcases List.mem_append.mp he with he | he
  · exact h e (List.mem_append_left _ he)
  · rcases List.mem_cons.mp he with rfl | he
    · exact hnext.fits
    · exact h e (List.mem_append_right _ (List.mem_cons_of_mem _ he))

theorem perform_of_books (h : Accounted s (front ++ ⟨id, deed :: rest⟩ :: back))
    (hnext : Chore.Next id deed rest) (hlast : deed.isLast = false)
    (hcountOut : deed.isCountOut = false)
    (howes : Chore.owes ⟨id, rest⟩ = Chore.owes ⟨id, deed :: rest⟩) :
    Accounted (s.perform deed) (front ++ ⟨id, rest⟩ :: back) := by
  obtain ⟨hruns, hrunning, hinFlight⟩ := s.books_perform hlast hcountOut
  refine ⟨?_, ?_, fits_perform h.fits hnext, nodup_perform h.nodup, ?_⟩
  · have hcounted := h.counted
    rw [List.countP_append, List.countP_cons] at hcounted ⊢
    rw [hruns, hinFlight, howes]
    exact hcounted
  · rw [hruns, hrunning]
    exact h.listed
  · intro e he hholds
    obtain ⟨old, hold, hholds, hid⟩ := exists_of_holds he hholds
    rw [hruns, ← hid]
    exact h.present old hold hholds

theorem perform_pause {paused : Run}
    (h : Accounted s (front ++ ⟨id, [.pause paused]⟩ :: back)) (hid : paused.id = id) :
    Accounted (s.perform (.pause paused)) (front ++ ⟨id, []⟩ :: back) := by
  have hkept (c : Nat) (hc : ∃ r ∈ s.runs, r.id = c) :
      ∃ r ∈ (s.perform (.pause paused)).runs, r.id = c := by
    obtain ⟨r, hr, rfl⟩ := hc
    refine ⟨_, List.mem_map_of_mem hr, ?_⟩
    split
    · exact Eq.symm ‹_›
    · rfl
  refine ⟨?_, fun c hc => hkept c.id (h.listed c hc), fits_perform h.fits (.pause hid),
    nodup_perform h.nodup, fun e he hholds => hkept e.id ?_⟩
  · have hcounted := h.counted
    rw [List.countP_append, List.countP_cons] at hcounted ⊢
    change (s.runs.map _).length + _ ≤ _
    rw [List.length_map]
    exact hcounted
  · obtain ⟨old, hold, hholds, hid⟩ := exists_of_holds he hholds
    exact hid ▸ h.present old hold hholds

theorem perform_leave (h : Accounted s (front ++ ⟨id, .leave id :: rest⟩ :: back))
    (hrest : Owing rest) :
    Accounted (s.perform (.leave id)) (front ++ ⟨id, rest⟩ :: back) := by
  have hold : Chore.holds ⟨id, .leave id :: rest⟩ = true := rfl
  obtain ⟨hnew, howes⟩ := Chore.of_owing hrest
  have hkept (c : Nat) (hne : c ≠ id) (hc : ∃ r ∈ s.runs, r.id = c) :
      ∃ r ∈ (s.perform (.leave id)).runs, r.id = c := by
    obtain ⟨r, hr, rfl⟩ := hc
    exact ⟨r, List.mem_filter.mpr ⟨hr, bne_iff_ne.mpr hne⟩, rfl⟩
  refine ⟨?_, ?_, fits_perform h.fits (.leave hrest), nodup_perform h.nodup, ?_⟩
  · obtain ⟨r, hr, hid⟩ := h.present _ (List.mem_append_right _ List.mem_cons_self) hold
    have hgone : (s.runs.filter (·.id != id)).length < s.runs.length :=
      List.length_filter_lt_length_iff_exists.mpr ⟨r, hr, by simpa using hid⟩
    have hcounted := h.counted
    rw [List.countP_append, List.countP_cons, Chore.owes_of_holds hold] at hcounted
    rw [List.countP_append, List.countP_cons, howes]
    change (s.runs.filter (·.id != id)).length + _ ≤ s.inFlight
    simp only [Bool.false_eq_true, if_false, if_true] at hcounted ⊢
    omega
  · intro c hc
    obtain ⟨hc, hne⟩ := List.mem_filter.mp hc
    exact hkept c.id (bne_iff_ne.mp hne) (h.listed c hc)
  · intro e he hholds
    have hne := h.ne_of_holds hold hnew he hholds
    obtain ⟨old, hmem, hholds, hid⟩ := exists_of_holds he hholds
    exact hkept e.id hne (hid ▸ h.present old hmem hholds)

theorem perform_countOut (h : Accounted s (front ++ ⟨id, [.countOut, .wake]⟩ :: back)) :
    Accounted (s.perform .countOut) (front ++ ⟨id, [.wake]⟩ :: back) := by
  refine ⟨?_, h.listed, fits_perform h.fits .countOut, nodup_perform h.nodup, ?_⟩
  · have hcounted := h.counted
    have howes : Chore.owes ⟨id, [.countOut, .wake]⟩ = true := rfl
    have hnone : Chore.owes ⟨id, [.wake]⟩ = false := rfl
    rw [List.countP_append, List.countP_cons, howes] at hcounted
    rw [List.countP_append, List.countP_cons, hnone]
    change s.runs.length + _ ≤ s.inFlight - 1
    simp only [Bool.false_eq_true, if_false, if_true] at hcounted ⊢
    omega
  · intro e he hholds
    obtain ⟨old, hold, hholds, hid⟩ := exists_of_holds he hholds
    exact hid ▸ h.present old hold hholds

/-- The accounts are kept deed by deed: a run leaves before it is counted out, so that it is always
counted while it has anything to send. -/
theorem perform (h : Accounted s (front ++ ⟨id, deed :: rest⟩ :: back)) :
    Accounted (s.perform deed) (front ++ ⟨id, rest⟩ :: back) := by
  have hnext : Chore.Next id deed rest :=
    (h.fits _ (List.mem_append_right _ List.mem_cons_self)).next
  cases hnext with
  | light hlight hrest =>
      apply h.perform_of_books (.light hlight hrest)
      · cases deed <;> first | rfl | cases hlight
      · cases deed <;> first | rfl | cases hlight
      · have hholds := Chore.holds_of_holding hrest
        rw [Chore.owes_of_holds hholds, Chore.owes_of_holds (Chore.holds_of_rest hholds)]
  | pause hid => exact h.perform_pause hid
  | leave hrest => exact h.perform_leave hrest
  | parting hparting hrest =>
      apply h.perform_of_books (.parting hparting hrest)
      · cases deed <;> first | rfl | cases hparting
      · cases deed <;> first | rfl | cases hparting
      · rw [(Chore.of_owing hrest).2, (Chore.of_owing (.parting hparting hrest)).2]
  | countOut => exact h.perform_countOut
  | wake => exact h.perform_of_books .wake rfl rfl rfl

theorem of_empty (h : Accounted s chores) (hzero : s.inFlight = 0) :
    s.runs = [] ∧ s.running = [] ∧ ∀ e ∈ chores, ∀ deed ∈ e.deeds, deed = .wake := by
  have hcounted := h.counted
  have hruns : s.runs = [] := List.eq_nil_of_length_eq_zero (by omega)
  have hnone : ∀ e ∈ chores, ¬e.owes = true := List.countP_eq_zero.mp (by omega)
  refine ⟨hruns, ?_, ?_⟩
  · apply List.eq_nil_iff_forall_not_mem.mpr
    intro c hc
    obtain ⟨r, hr, -⟩ := h.listed c hc
    rw [hruns] at hr
    cases hr
  · intro e he deed hdeed
    cases h.fits e he with
    | holding hheld =>
        obtain ⟨r, hr, -⟩ := h.present _ he (Chore.holds_of_holding hheld)
        rw [hruns] at hr
        cases hr
    | owing howed => exact absurd (Chore.of_owing howed).2 (hnone _ he)
    | wake => exact List.mem_singleton.mp hdeed
    | done => cases hdeed

end Accounted

namespace Floor

variable {f g : Floor} {m : Move}

/-- What holds of a scheduler at work whatever has been done. -/
structure Sound (f : Floor) : Prop where
  books : Accounted f.scheduler f.chores
  sent : f.scheduler.stopped = false → f.sent = f.handled ++ f.scheduler.channel
  accepted : f.scheduler.accepted = f.sent.filterMap Event.asked?
  stopped : f.scheduler.stopped = true → ∃ drained, f.loop = .ended drained

theorem sound_fresh (settings : SchedulerSettings) (catalog : Catalog) (listeners : List String) :
    (fresh settings catalog listeners).Sound where
  books := ⟨Nat.le_refl 0, nofun, nofun, List.nodup_nil, nofun⟩
  sent := fun _ => rfl
  accepted := rfl
  stopped := nofun

namespace Sound

theorem isOpen (h : f.Sound) {phase : LoopPhase} (hloop : f.loop = phase)
    (hphase : ∀ drained, phase ≠ .ended drained) : f.scheduler.stopped = false := by
  cases hstopped : f.scheduler.stopped with
  | false => rfl
  | true =>
      obtain ⟨drained, hended⟩ := h.stopped hstopped
      exact absurd (hloop.symm.trans hended) (hphase drained)

theorem takesUp (h : f.Sound) {w : World} {added : List Run}
    (hup : f.scheduler.TakesUp w.scheduler added) : Sound { f with world := w } where
  books := h.books.takesUp hup
  sent := by
    intro hopen
    change f.sent = f.handled ++ w.scheduler.channel
    rw [hup.channel]
    exact h.sent (hup.stopped.symm.trans hopen)
  accepted := hup.accepted.trans h.accepted
  stopped := fun hstopped => h.stopped (hup.stopped.symm.trans hstopped)

theorem moveOn (h : f.Sound) (hopen : f.scheduler.stopped = false) (next : LoopPhase) :
    Sound { f with loop := next } where
  books := h.books
  sent := h.sent
  accepted := h.accepted
  stopped := fun hstopped => absurd (hopen.symm.trans hstopped) Bool.false_ne_true

theorem takeEvent (h : f.Sound) (hopen : f.scheduler.stopped = false) {next : LoopPhase}
    (htake : f.takeEvent? next = some g) : g.Sound := by
  unfold takeEvent? at htake
  split at htake
  · cases htake
  · rename_i event rest hchannel
    cases htake
    let taken : Floor := { f.put { f.scheduler with channel := rest } with
      loop := next
      handled := f.handled ++ [event] }
    have htaken : taken.Sound := by
      refine ⟨⟨h.books.counted, h.books.listed, h.books.fits, h.books.nodup, h.books.present⟩,
        fun _ => ?_, h.accepted, fun hstopped => ?_⟩
      · change f.sent = f.handled ++ [event] ++ rest
        rw [h.sent hopen, hchannel, List.append_assoc, List.singleton_append]
      · exact absurd (hopen.symm.trans hstopped) Bool.false_ne_true
    exact htaken.takesUp (.of_takesIn (.handle _ event))

theorem deed (h : f.Sound) {n id : Nat} {deed : Deed} {rest : List Deed} {back : List Chore}
    (hdrop : f.chores.drop n = ⟨id, deed :: rest⟩ :: back) :
    Sound { f.put (f.scheduler.perform deed) with
      chores := f.chores.take n ++ ⟨id, rest⟩ :: back
      sent := f.sent ++ f.scheduler.sends deed } := by
  have hchores : f.chores = f.chores.take n ++ ⟨id, deed :: rest⟩ :: back := by
    rw [← hdrop, List.take_append_drop]
  have hbooks : Accounted f.scheduler (f.chores.take n ++ ⟨id, deed :: rest⟩ :: back) :=
    hchores ▸ h.books
  have hnext : Chore.Next id deed rest :=
    (hbooks.fits _ (List.mem_append_right _ List.mem_cons_self)).next
  refine ⟨hbooks.perform, fun hopen => ?_, ?_, fun hstopped => ?_⟩
  · change f.sent ++ f.scheduler.sends deed = f.handled ++ (f.scheduler.perform deed).channel
    rw [h.sent ((f.scheduler.stopped_perform deed).symm.trans hopen), Scheduler.channel_perform,
      List.append_assoc]
  · change (f.scheduler.perform deed).accepted = _
    rw [f.scheduler.accepted_perform hnext.accepted?, h.accepted, List.filterMap_append]
  · exact h.stopped ((f.scheduler.stopped_perform deed).symm.trans hstopped)

theorem resume (h : f.Sound) {id : Nat} {r : Run} (hrun : f.scheduler.run? id = some r)
    (hfree : f.isBusy id = false) (invocation : Configuration → Script) :
    Sound { f with chores := f.chores ++ [⟨id, (f.scheduler.course r invocation).2⟩] } := by
  obtain rfl : r.id = id := by simpa using List.find?_some hrun
  refine ⟨h.books.resume (List.mem_of_find?_eq_some hrun) ?_ (Scheduler.holding_course ..), h.sent,
    h.accepted, h.stopped⟩
  intro e he hid
  have hnot := List.any_eq_false.mp hfree e he
  simpa [hid] using hnot

theorem move (h : f.Sound) (hmove : f.move? m = some g) : g.Sound := by
  cases moved_of_move? hmove with
  | outside hpass hstep =>
      obtain ⟨added, hup, -⟩ := f.world.exists_takesUp_act hpass hstep
      exact h.takesUp hup
  | resume hrun hfree => exact h.resume hrun hfree _
  | deed hdrop => exact h.deed hdrop
  | read hloop => exact h.moveOn (h.isOpen hloop nofun) _
  | receive hloop htake => exact h.takeEvent (h.isOpen hloop nofun) htake
  | receiveAsleep hloop htake => exact h.takeEvent (h.isOpen hloop nofun) htake
  | findEmpty hloop => exact h.moveOn (h.isOpen hloop nofun) _
  | leave hloop => exact h.moveOn (h.isOpen hloop nofun) _
  | stay hloop => exact h.moveOn (h.isOpen hloop nofun) _
  | drain hloop => exact h.moveOn (h.isOpen hloop nofun) _
  | goOn hloop => exact h.moveOn (h.isOpen hloop nofun) _
  | serve hloop =>
      have hup := Scheduler.TakesUp.scheduleReady f.scheduler
      have hserved : Sound (f.put f.scheduler.scheduleReady) := h.takesUp hup
      exact hserved.moveOn (hup.stopped.trans (h.isOpen hloop nofun)) _
  | rouse hloop =>
      have hroused : Sound (f.put { f.scheduler with signalled := false }) :=
        h.takesUp (.keep rfl rfl rfl rfl rfl rfl)
      exact hroused.moveOn (h.isOpen hloop nofun) _
  | stop hloop =>
      exact ⟨⟨h.books.counted, h.books.listed, h.books.fits, h.books.nodup, h.books.present⟩,
        nofun, h.accepted, fun _ => ⟨_, rfl⟩⟩

theorem run (h : f.Sound) {moves : List Move} (hrun : f.run? moves = some g) : g.Sound :=
  run?_induction (fun _ _ _ _ h hmove => h.move hmove) h hrun

end Sound

end Floor

end DeviceLab
