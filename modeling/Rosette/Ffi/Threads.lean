import Rosette.Ffi.Exclusion

/-! # Conditions on a device

What is said of a device is said of its database together with the conversations its process
shows, and of each thread beside them. With one thread at work, a step is such a thread's own,
or it concerns the conversations alone; a condition has to be kept by these few.
-/
namespace Rosette.Ffi
open Foundation Proto Rosette.Core Engine List

structure Ruling (mls : OpenMls) where
  /-- Of the database, and of what a running process shows. -/
  state : Database mls → Option UiStore → Prop
  task : Database mls → UiStore → Task mls → Prop

variable {mls : OpenMls} {R : Ruling mls} {w : Phone mls}

/-- The condition holds of the device, and one thread is at work. -/
structure Ruling.Holds (R : Ruling mls) (w : Phone mls) : Prop where
  state : R.state w.disk (w.process.map Process.store)
  process : ∀ p, w.process = some p → p.Single ∧ ∀ t ∈ p.threads, R.task w.disk p.store t.task

/-- A move that is made leads from one condition to the other. -/
structure Ruling.Leads (h : Host mls) (w : Phone mls) (m : Move) (R R' : Ruling mls) : Prop where
  calm : w.undisturbed m = true
  died : ∀ store, R.state w.disk store → R'.state w.disk none
  came : R.state w.disk none → R'.state w.disk (some (w.disk.uiState.elim .empty Prod.fst))
  resuming : ∀ disk store, R'.task disk store .resuming
  ended : ∀ disk store, R'.task disk store .ended
  spawned : ∀ p errand, w.process = some p → p.starts m = some errand →
    R.state w.disk (some p.store) → R'.task w.disk p.store (.spawned errand)
  /-- No thread is concerned, and of the database at most the row of the conversations. -/
  aside : ∀ p disk' store' seq', w.process = some p → disk'.engine = w.disk.engine →
    Marks m p.store store' → w.disk.Rewritten disk' store' seq' →
    R.state w.disk (some p.store) → R'.state disk' (some store') ∧
      ∀ task, R.task w.disk p.store task → R'.task disk' store' task
  thread : ∀ p (i : ℕ) tm t closed o, w.process = some p → m = .thread i tm →
    p.threads[i]? = some t → R.state w.disk (some p.store) → R.task w.disk p.store t.task →
    t.task.step h p w.disk closed tm = some o →
    R'.state o.disk (some o.store) ∧ R'.task o.disk o.store o.task

theorem Ruling.holds_of_idle (hs : R.state w.disk (w.process.map Process.store))
    (hp : ∀ p, w.process = some p → p.threads = []) : R.Holds w := by
  refine ⟨hs, fun p hw => ⟨single_of_nil (hp p hw), ?_⟩⟩
  rw [hp p hw]
  exact fun t ht => absurd ht not_mem_nil

theorem Ruling.Leads.step {h : Host mls} {w' : Phone mls} {m : Move} {R' : Ruling mls}
    (hR : R.Leads h w m R') (hw : R.Holds w) (hs : w.step h m = some w') : R'.Holds w' := by
  rcases Phone.step_cases hs with ⟨displayName, relayCfg, hnone, rfl⟩ | rfl | ⟨p, p', hp, hp', hst⟩
  · have hstate := hw.state
    rw [hnone] at hstate
    refine ⟨hR.came hstate, ?_⟩
    rintro _ ⟨⟩
    refine ⟨single_newPersistent _ _ _, fun t ht => ?_⟩
    simp only [newPersistent] at ht
    split_ifs at ht
    · obtain rfl := mem_singleton.mp ht
      exact hR.resuming _ _
    · exact absurd ht not_mem_nil
  · exact ⟨hR.died _ hw.state, by rintro _ ⟨⟩⟩
  · obtain ⟨disk', process'⟩ := w'
    obtain rfl : process' = some p' := hp'
    obtain ⟨hsingle, htasks⟩ := hw.process p hp
    have hstate := hw.state
    rw [hp] at hstate
    have hdone : R'.state disk' (some p'.store) →
        (∀ t ∈ p'.threads, R'.task disk' p'.store t.task) →
        R'.Holds ⟨disk', some p'⟩ := by
      refine fun hstate' htasks' => ⟨hstate', ?_⟩
      rintro _ ⟨⟩
      exact ⟨hsingle.step (fun errand => quiet_of_undisturbed hR.calm hp) hst, htasks'⟩
    have hsame := hR.aside p w.disk p.store p.seq hp rfl (.inl rfl) (.inl rfl) hstate
    cases hst with
    | called =>
      cases hstart : p.starts m with
      | none =>
        rw [hstart] at hdone
        exact hdone hsame.1 fun t ht => hsame.2 _ (htasks t ht)
      | some errand =>
        rw [hstart] at hdone
        refine hdone hsame.1 fun t ht => ?_
        rcases mem_append.mp ht with ht | ht
        · exact hsame.2 _ (htasks t ht)
        · obtain rfl := mem_singleton.mp ht
          exact hR.spawned p errand hp hstart hstate
    | aside starts engine threads backend names marked written =>
      obtain ⟨hstate', hkept⟩ := hR.aside p disk' p'.store p'.seq hp engine marked written hstate
      refine hdone hstate' fun t ht => hkept _ (htasks t ?_)
      rwa [threads] at ht
    | @returned i task word backend found =>
      refine hdone hsame.1 fun t ht => ?_
      rcases mem_or_eq_of_mem_set ht with ht | rfl
      · exact hsame.2 _ (htasks t ht)
      · exact hsame.2 task (htasks ⟨task, word, true⟩ (mem_of_getElem? found))
    | @thread i t tm o move found stepped =>
      obtain ⟨hstate', htask⟩ := hR.thread p i tm t _ o hp move found hstate
        (htasks t (mem_of_getElem? found)) stepped
      refine hdone hstate' fun u hu => ?_
      rcases hsingle.installed found (live_of_step stepped) hu with hdone | hdone
      · rw [hdone]
        exact htask
      · rw [hdone]
        exact hR.ended _ _

end Rosette.Ffi
