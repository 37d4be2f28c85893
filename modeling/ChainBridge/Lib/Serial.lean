import ChainBridge.Lib.Locks

/-!
# Runs of locked programs as runs without interleaving

The sections of `Interleave.Schedule` read as programs: whole programs in a row, if each takes its locks once (`Reach.serial`);
and what the sections do to the data, found by carrying each out alone (`Effects`, `Reach.related`).
-/

namespace Interleave

section Serial

variable {L : Type} {D : L → Type} {ι : Type} {ρ : ι → Type} {M : Type} [DecidableEq L]

namespace Locked

variable {start : M → LockProg D ρ Unit} {data₀ : (l : L) → D l} {x y : Locked D ρ M}

/-! ## The calls of a thread -/

/-- What the history says of a thread: the message that started it, and its calls, which are a partial execution of the program
of the message. -/
structure Begun (start : M → LockProg D ρ Unit) (x : Locked D ρ M) (t : Nat) (m : M) (q : LockProg D ρ Unit) : Prop where
  delivered : .deliver t m ∈ x.log
  steps : ∃ q', Prog.Steps (start m) (traceOf t x.log) q' ∧ (q = q' ∨ q = .ret ())

theorem Reach.begun (h : Reach start (init data₀) x) (t : Nat) :
    (x.threads t = none → traceOf t x.log = []) ∧ ∀ m q, x.threads t = some (m, q) → Begun start x t m q := by
  induction h with
  | refl => exact ⟨fun _ => rfl, fun m q hq => by cases hq⟩
  | @step x y l _ hs ih =>
    cases hs with
    | deliver u m hn =>
      by_cases hut : t = u
      · subst hut
        refine ⟨fun hnone => ?_, fun m' q hq => ?_⟩
        · simp only [Function.update_self] at hnone
          cases hnone
        · simp only [Function.update_self, Option.some.injEq, Prod.mk.injEq] at hq
          obtain ⟨rfl, rfl⟩ := hq
          refine ⟨List.mem_append_right _ List.mem_cons_self, start m, ?_, Or.inl rfl⟩
          rw [Pool.traceOf_snoc_deliver, ih.1 hn]
          exact .nil _
      · refine ⟨fun hnone => ?_, fun m' q hq => ?_⟩
        · simp only [Function.update_of_ne hut] at hnone
          exact (Pool.traceOf_snoc_deliver ..).trans (ih.1 hnone)
        · simp only [Function.update_of_ne hut] at hq
          obtain ⟨hdelivered, q', hsteps, hq'⟩ := ih.2 m' q hq
          exact ⟨List.mem_append_left _ hdelivered, q', (Pool.traceOf_snoc_deliver ..).symm ▸ hsteps, hq'⟩
    | @call u m c k r hc hgranted =>
      by_cases hut : t = u
      · subst hut
        refine ⟨fun hnone => ?_, fun m' q hq => ?_⟩
        · simp only [Function.update_self] at hnone
          cases hnone
        · simp only [Function.update_self, Option.some.injEq, Prod.mk.injEq] at hq
          obtain ⟨rfl, rfl⟩ := hq
          obtain ⟨hdelivered, q', hsteps, hq'⟩ := ih.2 m _ hc
          rcases hq' with rfl | hret
          · refine ⟨List.mem_append_left _ hdelivered, _, ?_, Or.inl rfl⟩
            rw [Pool.traceOf_snoc_self]
            exact hsteps.trans (.cons c _ (.nil _))
          · cases hret
      · refine ⟨fun hnone => ?_, fun m' q hq => ?_⟩
        · simp only [Function.update_of_ne hut] at hnone
          exact (Pool.traceOf_snoc_other (Ne.symm hut) ..).trans (ih.1 hnone)
        · simp only [Function.update_of_ne hut] at hq
          obtain ⟨hdelivered, q', hsteps, hq'⟩ := ih.2 m' q hq
          exact ⟨List.mem_append_left _ hdelivered, q', (Pool.traceOf_snoc_other (Ne.symm hut) ..).symm ▸ hsteps, hq'⟩
    | @drop u m q hq =>
      by_cases hut : t = u
      · subst hut
        refine ⟨fun hnone => ?_, fun m' q' hq' => ?_⟩
        · simp only [Function.update_self] at hnone
          cases hnone
        · simp only [Function.update_self, Option.some.injEq, Prod.mk.injEq] at hq'
          obtain ⟨rfl, rfl⟩ := hq'
          obtain ⟨hdelivered, q', hsteps, -⟩ := ih.2 m _ hq
          exact ⟨List.mem_append_left _ hdelivered, q', (Pool.traceOf_snoc_env ..).symm ▸ hsteps, Or.inr rfl⟩
      · refine ⟨fun hnone => ?_, fun m' q' hq' => ?_⟩
        · simp only [Function.update_of_ne hut] at hnone
          exact (Pool.traceOf_snoc_env ..).trans (ih.1 hnone)
        · simp only [Function.update_of_ne hut] at hq'
          obtain ⟨hdelivered, q'', hsteps, hq''⟩ := ih.2 m' q' hq'
          exact ⟨List.mem_append_left _ hdelivered, q'', (Pool.traceOf_snoc_env ..).symm ▸ hsteps, hq''⟩

theorem Step.log_eq {l : LockLabel D ρ M} (h : Step start x l y) : y.log = x.log ++ [l] := by
  cases h <;> rfl

/-- What the history was, the run came through. -/
theorem Reach.of_append (h : Reach start (init data₀) x) {log log' : List (LockLabel D ρ M)} (hlog : x.log = log ++ log') :
    ∃ x₁, Reach start (init data₀) x₁ ∧ x₁.log = log := by
  induction h generalizing log' with
  | refl => exact ⟨init data₀, .refl, (List.append_eq_nil_iff.mp hlog.symm).1.symm⟩
  | @step x y l hr hs ih =>
    rcases List.eq_nil_or_concat log' with rfl | ⟨log'', l', rfl⟩
    · exact ⟨y, .step hr hs, hlog.trans (List.append_nil log)⟩
    · rw [hs.log_eq, List.concat_eq_append, ← List.append_assoc] at hlog
      exact ih (List.append_inj_left' hlog rfl)

/-- Every label of a history was added by a step of the run. -/
theorem Reach.step_of_split (h : Reach start (init data₀) x) {log log' : List (LockLabel D ρ M)} {l : LockLabel D ρ M}
    (hlog : x.log = log ++ l :: log') : ∃ x₁ y₁, Reach start (init data₀) x₁ ∧ Step start x₁ l y₁ ∧ x₁.log = log := by
  have hsplit : x.log = (log ++ [l]) ++ log' := hlog.trans (List.append_cons ..)
  obtain ⟨y₁, hy, hylog⟩ := h.of_append hsplit
  cases hy with
  | refl => simp [init] at hylog
  | @step x₁ _ l' hr hs =>
    rw [hs.log_eq] at hylog
    obtain ⟨hlog₁, hl⟩ := List.append_inj' hylog rfl
    cases hl
    exact ⟨x₁, y₁, hr, hs, hlog₁⟩

end Locked

/-! ## Whole programs in a row -/

namespace Schedule

/-- The sections of a thread. -/
def sectionsOf (z : Schedule D ρ) (t : Nat) : List (LockEvent D ρ) := (z.sections.filter fun b => b.1 == t).flatMap (·.2)

omit [DecidableEq L] in
theorem sectionsOf_commit (z : Schedule D ρ) (t u : Nat) (es : List (LockEvent D ρ)) :
    (z.commit t es).sectionsOf u ++ (z.commit t es).pending u =
      (if u = t then z.sectionsOf u ++ (z.pending u ++ es) else z.sectionsOf u ++ z.pending u) := by
  by_cases hut : u = t
  · subst hut
    simp [sectionsOf, commit]
  · have htu : ¬t = u := fun h => hut h.symm
    simp [sectionsOf, commit, hut, htu, Function.update_of_ne]

/-- The calls of a thread are those of its sections and those that are pending. -/
theorem traceOf_schedule (log : List (LockLabel D ρ M)) (t : Nat) :
    (schedule log).sectionsOf t ++ (schedule log).pending t = traceOf t log := by
  induction log using List.reverseRecOn with
  | nil => rfl
  | append_singleton log l ih =>
    rw [schedule_snoc]
    cases l with
    | deliver u m => exact ih.trans (Pool.traceOf_snoc_deliver ..).symm
    | call u e =>
      simp only [next]
      split
      · refine (sectionsOf_commit (schedule log) u t [e]).trans ?_
        split
        · rename_i htu
          subst htu
          rw [← List.append_assoc, ih, Pool.traceOf_snoc_self]
        · rename_i htu
          rw [ih, Pool.traceOf_snoc_other (Ne.symm htu)]
      · by_cases htu : t = u
        · subst htu
          rw [Pool.traceOf_snoc_self, ← ih, List.append_assoc]
          exact congrArg ((schedule log).sectionsOf t ++ ·) (Function.update_self ..)
        · rw [Pool.traceOf_snoc_other (Ne.symm htu), ← ih]
          exact congrArg ((schedule log).sectionsOf t ++ ·) (Function.update_of_ne htu ..)
    | env u =>
      rw [Pool.traceOf_snoc_env, ← ih]
      simp only [next]
      split
      · rfl
      · refine (sectionsOf_commit (schedule log) u t []).trans ?_
        simp

omit [DecidableEq L] in
theorem sectionsOf_eq_nil {z : Schedule D ρ} {t : Nat} (h : t ∉ z.sections.map (·.1)) : z.sectionsOf t = [] := by
  have hnone : z.sections.filter (fun b => b.1 == t) = [] := by
    rw [List.filter_eq_nil_iff]
    intro b hb hbt
    exact h (List.mem_map.mpr ⟨b, hb, eq_of_beq hbt⟩)
  rw [sectionsOf, hnone]
  rfl

omit [DecidableEq L] in
/-- The only section of a thread. -/
theorem sectionsOf_eq {z : Schedule D ρ} (hnodup : (z.sections.map (·.1)).Nodup) {b : Nat × List (LockEvent D ρ)}
    (hb : b ∈ z.sections) : z.sectionsOf b.1 = b.2 := by
  obtain ⟨as, bs, hsections⟩ := List.append_of_mem hb
  rw [hsections, List.map_append, List.map_cons, List.nodup_append, List.nodup_cons] at hnodup
  obtain ⟨-, ⟨hbs, -⟩, has⟩ := hnodup
  have hother : ∀ cs : List (Nat × List (LockEvent D ρ)), b.1 ∉ cs.map (·.1) → cs.filter (fun c => c.1 == b.1) = [] := by
    intro cs hcs
    rw [List.filter_eq_nil_iff]
    intro c hc hcb
    exact hcs (List.mem_map.mpr ⟨c, hc, eq_of_beq hcb⟩)
  have has' : b.1 ∉ as.map (·.1) := fun hmem => has b.1 hmem b.1 List.mem_cons_self rfl
  rw [sectionsOf, hsections, List.filter_append, List.filter_cons_of_pos (by simp), hother as has', hother bs hbs]
  simp

end Schedule

/-- The threads whose sections are finished, in the order of their first releases. -/
def commitOrder (log : List (LockLabel D ρ M)) : List Nat := (schedule log).sections.map (·.1)

/-- What comes later is committed later. -/
theorem commitOrder_prefix (log log' : List (LockLabel D ρ M)) : commitOrder log <+: commitOrder (log ++ log') := by
  induction log' using List.reverseRecOn with
  | nil => exact (List.append_nil log).symm ▸ List.prefix_refl _
  | append_singleton log' l ih =>
    refine ih.trans ?_
    rw [← List.append_assoc, commitOrder, commitOrder, Schedule.schedule_snoc]
    have hnext : (schedule (log ++ log')).sections <+: ((schedule (log ++ log')).next l).sections := by
      cases l with
      | deliver t m => exact List.prefix_refl _
      | call t e =>
        simp only [Schedule.next]
        split
        · exact List.prefix_append _ _
        · exact List.prefix_refl _
      | env t =>
        simp only [Schedule.next]
        split
        · exact List.prefix_refl _
        · exact List.prefix_append _ _
    exact hnext.map _

/-- Pieces that only add quiet calls to sections fit where the sections do and leave the same data. -/
theorem fits_flatMap_of_quiet {f : Nat → List (LockEvent D ρ)} {bs : List (Nat × List (LockEvent D ρ))}
    (h : ∀ b ∈ bs, ∃ p, NoAccess p ∧ f b.1 = b.2 ++ p) {data : (l : L) → D l} (hfits : Fits data (bs.flatMap (·.2))) :
    Fits data ((bs.map (·.1)).flatMap f) ∧
      dataAfter data ((bs.map (·.1)).flatMap f) = dataAfter data (bs.flatMap (·.2)) := by
  induction bs generalizing data with
  | nil => exact ⟨trivial, rfl⟩
  | cons b bs ih =>
    obtain ⟨⟨p, hp, hb⟩, hbs⟩ := List.forall_mem_cons.mp h
    rw [List.flatMap_cons, fits_append] at hfits
    have hpiece : dataAfter data (f b.1) = dataAfter data b.2 := by rw [hb, dataAfter_append, dataAfter_of_noAccess hp]
    obtain ⟨hrest, hdata⟩ := ih hbs hfits.2
    rw [List.map_cons, List.flatMap_cons, List.flatMap_cons, fits_append, dataAfter_append, dataAfter_append, hpiece]
    refine ⟨⟨?_, hrest⟩, hdata⟩
    rw [hb]
    exact fits_append.mpr ⟨hfits.1, fits_of_noAccess hp _⟩

namespace Locked

variable [LT L] {start : M → LockProg D ρ Unit} {data₀ : (l : L) → D l} {x y : Locked D ρ M}

/-- A thread whose programs take their locks once has at most one section. -/
structure Once (z : Schedule D ρ) : Prop where
  nodup : (z.sections.map (·.1)).Nodup
  released : ∀ t ∈ z.sections.map (·.1), (z.grip t).released = true

omit [DecidableEq L] [LT L] in
theorem Once.commit {z : Schedule D ρ} (h : Once z) {t : Nat} (ht : (z.grip t).released = false)
    (es : List (LockEvent D ρ)) {g : Grip L} (hg : g.released = true) : Once ((z.commit t es).regrip t g) := by
  have hnot : t ∉ z.sections.map (·.1) := fun hmem => by
    rw [h.released t hmem] at ht
    cases ht
  have hmap : ((z.commit t es).regrip t g).sections.map (·.1) = z.sections.map (·.1) ++ [t] := by
    simp [Schedule.commit, Schedule.regrip]
  refine ⟨?_, fun u hu => ?_⟩
  · rw [hmap, List.nodup_append]
    refine ⟨h.nodup, by simp, fun u hu v hv huv => hnot ?_⟩
    rw [← List.mem_singleton.mp hv, ← huv]
    exact hu
  · rw [hmap, List.mem_append, List.mem_singleton] at hu
    by_cases hut : u = t
    · subst hut
      rw [show ((z.commit u es).regrip u g).grip u = g from Function.update_self ..]
      exact hg
    · rw [show ((z.commit t es).regrip t g).grip u = z.grip u from Function.update_of_ne hut ..]
      exact h.released u (hu.resolve_right hut)

omit [DecidableEq L] [LT L] in
theorem Once.regrip {z z' : Schedule D ρ} (h : Once z) {t : Nat} {g : Grip L} (hsections : z'.sections = z.sections)
    (hgrip : z'.grip = Function.update z.grip t g) (hg : (z.grip t).released = true → g.released = true) : Once z' := by
  refine ⟨hsections ▸ h.nodup, fun u hu => ?_⟩
  rw [hsections] at hu
  have hu' := h.released u hu
  rw [hgrip]
  by_cases hut : u = t
  · subst hut
    rw [Function.update_self]
    exact hg hu'
  · rw [Function.update_of_ne hut]
    exact hu'

theorem Reach.once (hstart : ∀ m, Disciplined false (start m)) (h : Reach start (init data₀) x) : Once (schedule x.log) := by
  induction h with
  | refl => exact ⟨List.nodup_nil, fun t ht => by cases ht⟩
  | @step x y l hr hs ih =>
    have hsorted := hr.sorted hstart
    cases hs with
    | deliver t m hn =>
      simp only [Schedule.schedule_snoc]
      exact ih
    | @call t m c k r hc hgranted =>
      obtain ⟨hkeeps, -⟩ := hsorted.threads t m _ hc
      simp only [Schedule.schedule_snoc, Schedule.next]
      split
      · rename_i hfirst
        rw [Bool.and_eq_true, Bool.not_eq_true'] at hfirst
        cases c with
        | release l => exact ih.commit hfirst.2 _ rfl
        | _ => cases hfirst.1
      · refine ih.regrip (t := t) rfl rfl fun hreleased => ?_
        cases c with
        | acquire l mode => cases (hkeeps.1 hreleased).1
        | release l => rfl
        | _ => exact hreleased
    | @drop t m q hq =>
      simp only [Schedule.schedule_snoc, Schedule.next]
      split
      · exact ih.regrip (t := t) rfl rfl fun _ => rfl
      · rename_i hreleased
        exact ih.commit (Bool.eq_false_of_not_eq_true hreleased) [] rfl

/-- A thread that holds nothing, and has no section, accessed nothing. -/
theorem Reach.quiet_of_free (hstart : ∀ m, Disciplined false (start m)) (h : Reach start (init data₀) x) {t : Nat}
    (ht : t ∉ commitOrder x.log) (hfree : ∀ l mode, (t, l, mode) ∉ x.held) : NoAccess (traceOf t x.log) := by
  have hsorted := (h.sorted hstart).scheduled
  intro e he
  rw [← Schedule.traceOf_schedule, Schedule.sectionsOf_eq_nil ht, List.nil_append] at he
  obtain ⟨c, a⟩ := e
  cases c with
  | get l =>
    obtain ⟨mode, hmode⟩ := hsorted.reads t _ he l rfl
    exact (hfree l mode hmode).elim
  | set l d => exact (hfree l _ (hsorted.writes t _ he l d rfl)).elim
  | _ => rfl

/-- A thread that is done holds nothing. -/
theorem Reach.free_of_done (hstart : ∀ m, Disciplined false (start m)) (h : Reach start (init data₀) x) {t : Nat} {m : M}
    (ht : x.threads t = some (m, .ret ())) (l : L) (mode : LockMode) : (t, l, mode) ∉ x.held := by
  have hsorted := h.sorted hstart
  intro hmem
  have hgrip := (hsorted.scheduled.grips t l mode).mpr hmem
  rw [show ((schedule x.log).grip t).held = [] from hsorted.threads t m _ ht] at hgrip
  cases hgrip

/-- A thread that has a section was started. -/
theorem Reach.begun_of_commit (hstart : ∀ m, Disciplined false (start m)) (h : Reach start (init data₀) x) {t : Nat}
    (ht : t ∈ commitOrder x.log) : ∃ m q, Begun start x t m q := by
  have hreleased := (h.once hstart).released t ht
  cases hthread : x.threads t with
  | none =>
    rw [(h.sorted hstart).fresh t hthread] at hreleased
    cases hreleased
  | some th => exact ⟨th.1, th.2, (h.begun t).2 th.1 th.2 hthread⟩

/-- A thread that was not yet started when another had its section has its own later. -/
theorem Reach.commitOrder_of_not_begun (hstart : ∀ m, Disciplined false (start m)) (h : Reach start (init data₀) x)
    {log log' : List (LockLabel D ρ M)} (hlog : x.log = log ++ log') {t u : Nat} (ht : t ∈ commitOrder log)
    (hu : ∀ m, .deliver u m ∉ log) : ¬[u, t].Sublist (commitOrder x.log) := by
  obtain ⟨x₁, hr, rfl⟩ := h.of_append hlog
  have hu' : u ∉ commitOrder x₁.log := fun hmem => by
    obtain ⟨m, q, hbegun⟩ := hr.begun_of_commit hstart hmem
    exact hu m hbegun.delivered
  obtain ⟨rest, hrest⟩ := commitOrder_prefix x₁.log log'
  rw [hlog, ← hrest]
  intro hsub
  have hnodup : (commitOrder x₁.log ++ rest).Nodup := by
    rw [hrest, ← hlog]
    exact (h.once hstart).nodup
  obtain ⟨as, bs, heq, has, hbs⟩ := List.sublist_append_iff.mp hsub
  cases as with
  | nil =>
    rw [List.nil_append] at heq
    have hmem : t ∈ rest := hbs.subset (by simp [← heq])
    exact (List.nodup_append.mp hnodup).2.2 t ht t hmem rfl
  | cons a as =>
    rw [List.cons_append, List.cons.injEq] at heq
    exact hu' (has.subset (heq.1 ▸ List.mem_cons_self))

/-- Every run of programs that take their locks once is, where no lock is held, one of whole programs carried out one after the
other: the calls of each thread in a row, in the order in which the threads first released a lock. The other threads accessed
nothing. -/
theorem Reach.serial (hstart : ∀ m, Disciplined false (start m)) (h : Reach start (init data₀) x) (hheld : x.held = []) :
    (commitOrder x.log).Nodup ∧ Fits data₀ ((commitOrder x.log).flatMap fun t => traceOf t x.log) ∧
      dataAfter data₀ ((commitOrder x.log).flatMap fun t => traceOf t x.log) = x.data ∧
      ∀ t, t ∉ commitOrder x.log → NoAccess (traceOf t x.log) := by
  have honce := h.once hstart
  have hsorted := (h.sorted hstart).scheduled
  obtain ⟨hfits, hdata⟩ := h.scheduled hstart hheld
  have hpieces : ∀ b ∈ (schedule x.log).sections, ∃ p, NoAccess p ∧ traceOf b.1 x.log = b.2 ++ p := by
    intro b hb
    have hmem := List.mem_map_of_mem (f := (·.1)) hb
    refine ⟨(schedule x.log).pending b.1, hsorted.quiet b.1 (honce.released b.1 hmem), ?_⟩
    rw [← Schedule.traceOf_schedule, Schedule.sectionsOf_eq honce.nodup hb]
  obtain ⟨hfits', hdata'⟩ := fits_flatMap_of_quiet (f := fun t => traceOf t x.log) hpieces hfits
  refine ⟨honce.nodup, hfits', hdata'.trans hdata, fun t ht => h.quiet_of_free hstart ht fun l mode hl => ?_⟩
  rw [hheld] at hl
  cases hl

end Locked

/-! ## Outside calls -/

/-- The outside calls so far, after one more call. -/
def noteOutside (es : List (Event ρ)) : LockEvent D ρ → List (Event ρ)
  | ⟨.outside i, a⟩ => es ++ [⟨i, a⟩]
  | _ => es

/-- The outside calls so far, after some more calls. -/
def outsideAfter (es : List (Event ρ)) (t : List (LockEvent D ρ)) : List (Event ρ) := t.foldl noteOutside es

omit [DecidableEq L] in
theorem outsideAfter_append (es : List (Event ρ)) (t u : List (LockEvent D ρ)) :
    outsideAfter es (t ++ u) = outsideAfter (outsideAfter es t) u :=
  List.foldl_append ..

omit [DecidableEq L] in
theorem prefix_outsideAfter (es : List (Event ρ)) (t : List (LockEvent D ρ)) : es <+: outsideAfter es t := by
  induction t generalizing es with
  | nil => exact List.prefix_refl _
  | cons e t ih =>
    refine List.IsPrefix.trans ?_ (ih (noteOutside es e))
    obtain ⟨c, a⟩ := e
    cases c with
    | outside i => exact List.prefix_append _ _
    | _ => exact List.prefix_refl _

omit [DecidableEq L] in
/-- An outside call is among those so far. -/
theorem mem_outsideAfter {es : List (Event ρ)} {t : List (LockEvent D ρ)} {i : ι} {a : ρ i}
    (h : (⟨.outside i, a⟩ : LockEvent D ρ) ∈ t) : ⟨i, a⟩ ∈ outsideAfter es t := by
  obtain ⟨t₁, t₂, rfl⟩ := List.append_of_mem h
  rw [outsideAfter_append]
  exact (prefix_outsideAfter (outsideAfter es t₁ ++ [⟨i, a⟩]) t₂).subset (List.mem_append_right _ List.mem_cons_self)

omit [DecidableEq L] in
/-- An outside call so far was made. -/
theorem mem_of_mem_outsideAfter {es : List (Event ρ)} {t : List (LockEvent D ρ)} {e : Event ρ} (h : e ∈ outsideAfter es t) :
    e ∈ es ∨ (⟨.outside e.1, e.2⟩ : LockEvent D ρ) ∈ t := by
  induction t generalizing es with
  | nil => exact Or.inl h
  | cons e' t ih =>
    rcases ih h with hnoted | hlater
    · obtain ⟨c, a⟩ := e'
      cases c with
      | outside i =>
        rcases List.mem_append.mp hnoted with hbefore | hhere
        · exact Or.inl hbefore
        · rw [List.mem_singleton.mp hhere]
          exact Or.inr List.mem_cons_self
      | _ => exact Or.inl hnoted
    · exact Or.inr (List.mem_cons_of_mem _ hlater)

/-! ## What sections do to the data -/

/-- Whether a program has released a lock since it last took one, after a call. -/
def LockCall.releasing : LockCall L D ι → Bool → Bool
  | .acquire _ _, _ => false
  | .release _, _ => true
  | _, released => released

/-- What the sections of a program, each begun on any data and carried out alone, do to the data keeps to a relation, also when
they are broken off, and at its end a property holds: `es` are the outside calls so far, `s` the data at the beginning of the
section and `d` the data now. -/
def Effects {α : Type} (R : List (Event ρ) → ((l : L) → D l) → ((l : L) → D l) → Prop)
    (Q : α → ((l : L) → D l) → ((l : L) → D l) → Prop) :
    LockProg D ρ α → List (Event ρ) → ((l : L) → D l) → ((l : L) → D l) → Bool → Prop
  | .ret a, es, s, d, _ => R es s d ∧ Q a s d
  | .call c k, es, s, d, released => R es s d ∧ ∀ a,
    if c.isRelease && !released then ∀ d', Effects R Q (k (c.answer d a)) es d' d' true
    else Effects R Q (k (c.answer d a)) (noteOutside es (⟨c, c.answer d a⟩ : LockEvent D ρ)) s (c.update d) (c.releasing released)

section Effects

variable {α β : Type} {R : List (Event ρ) → ((l : L) → D l) → ((l : L) → D l) → Prop} {es : List (Event ρ)}
  {s d : (l : L) → D l} {released : Bool}

theorem related_of_effects {Q : α → ((l : L) → D l) → ((l : L) → D l) → Prop} {q : LockProg D ρ α}
    (h : Effects R Q q es s d released) : R es s d := by
  cases q with
  | ret a => exact h.1
  | call c k => exact h.1

/-- A program and what follows it, whatever it asked outside and wherever it is in its section. -/
theorem effects_bind {Q : α → ((l : L) → D l) → ((l : L) → D l) → Prop} {Q' : β → ((l : L) → D l) → ((l : L) → D l) → Prop}
    {p : LockProg D ρ α} {f : α → LockProg D ρ β} (hp : Effects R Q p es s d released)
    (hf : ∀ a es s d released, Q a s d → Effects R Q' (f a) es s d released) : Effects R Q' (p >>= f) es s d released := by
  induction p generalizing es s d released with
  | ret a => exact hf a es s d released hp.2
  | call c k ih =>
    refine ⟨hp.1, fun a => ?_⟩
    have hrest := hp.2 a
    by_cases hfirst : (c.isRelease && !released) = true
    · rw [if_pos hfirst] at hrest ⊢
      exact fun d' => ih _ (hrest d')
    · rw [if_neg hfirst] at hrest ⊢
      exact ih _ hrest

end Effects

namespace Locked

/-- What the message of a thread of a history and its first outside calls account for. -/
def Done (R : M → List (Event ρ) → ((l : L) → D l) → ((l : L) → D l) → Prop) (log : List (LockLabel D ρ M))
    (s d : (l : L) → D l) : Prop :=
  ∃ t m es, .deliver t m ∈ log ∧ es <+: outsideAfter [] (traceOf t log) ∧ R m es s d

variable [LT L] {again : Bool} {start : M → LockProg D ρ Unit} {data₀ : (l : L) → D l} {x y : Locked D ρ M}
  {R : M → List (Event ρ) → ((l : L) → D l) → ((l : L) → D l) → Prop}

omit [DecidableEq L] [LT L] in
/-- What was done before a label was done after it. -/
theorem Done.snoc {log : List (LockLabel D ρ M)} {s d : (l : L) → D l} (h : Done R log s d) (l : LockLabel D ρ M) :
    Done R (log ++ [l]) s d := by
  obtain ⟨t, m, es, hdelivered, hes, hR⟩ := h
  refine ⟨t, m, es, List.mem_append_left _ hdelivered, hes.trans ?_, hR⟩
  rw [Pool.traceOf_append, outsideAfter_append]
  exact prefix_outsideAfter _ _

/-- The data of a run go from one to the next as the threads do, and what a thread's pending calls do to any data they fit,
with what is left of its program, keeps to the relation; a thread that was dropped has nothing left. -/
structure Related (R : M → List (Event ρ) → ((l : L) → D l) → ((l : L) → D l) → Prop) (data₀ : (l : L) → D l)
    (x : Locked D ρ M) : Prop where
  now : Relation.ReflTransGen (Done R x.log) data₀ ((schedule x.log).now data₀)
  effects : ∀ t m q, x.threads t = some (m, q) → ((schedule x.log).grip t).released = true ∧ q = .ret () ∨
    ∀ d, Fits d ((schedule x.log).pending t) → Effects (R m) (fun _ _ _ => True) q (outsideAfter [] (traceOf t x.log)) d
      (dataAfter d ((schedule x.log).pending t)) ((schedule x.log).grip t).released

omit [LT L] in
theorem Related.now_snoc (h : Related R data₀ x) (l : LockLabel D ρ M) :
    Relation.ReflTransGen (Done R (x.log ++ [l])) data₀ ((schedule x.log).now data₀) :=
  Relation.ReflTransGen.mono (fun _ _ hdone => hdone.snoc l) _ _ h.now

omit [LT L] in
/-- A section that is finished: the data go on by the relation. -/
theorem Related.commit (h : Related R data₀ x) {t : Nat} {m : M} (hdelivered : .deliver t m ∈ x.log) {es : List (LockEvent D ρ)}
    (hes : NoAccess es) (hR : R m (outsideAfter [] (traceOf t x.log)) ((schedule x.log).now data₀)
      (dataAfter ((schedule x.log).now data₀) ((schedule x.log).pending t))) (g : Grip L) (l : LockLabel D ρ M) :
    Relation.ReflTransGen (Done R (x.log ++ [l])) data₀ ((((schedule x.log).commit t es).regrip t g).now data₀) := by
  refine (h.now_snoc l).tail ?_
  rw [show (((schedule x.log).commit t es).regrip t g).now data₀ = ((schedule x.log).commit t es).now data₀ from rfl,
    Schedule.now_commit _ t hes]
  exact Done.snoc ⟨t, m, _, hdelivered, List.prefix_refl _, hR⟩ l

omit [LT L] in
theorem releasing_eq (c : LockCall L D ι) (g : Grip L) : c.releasing g.released = (c.grip g).released := by
  cases c <;> rfl

omit [LT L] in
/-- After a pending call, what is left of the program keeps to the relation. -/
theorem effects_defer {R : List (Event ρ) → ((l : L) → D l) → ((l : L) → D l) → Prop}
    {Q : Unit → ((l : L) → D l) → ((l : L) → D l) → Prop} {c : LockCall L D ι} {k : c.Answer ρ → LockProg D ρ Unit}
    {pending : List (LockEvent D ρ)} {es : List (Event ρ)} {a : c.Answer ρ} {released : Bool}
    (hfirst : ¬(c.isRelease && !released) = true)
    (h : ∀ d, Fits d pending → Effects R Q (.call c k) es d (dataAfter d pending) released) (d : (l : L) → D l)
    (hfits : Fits d (pending ++ [⟨c, a⟩])) :
    Effects R Q (k a) (noteOutside es (⟨c, a⟩ : LockEvent D ρ)) d (dataAfter d (pending ++ [⟨c, a⟩])) (c.releasing released) := by
  obtain ⟨hpending, hanswer, -⟩ := fits_append.mp hfits
  have hnext := (h d hpending).2 a
  rw [if_neg hfirst, ← hanswer] at hnext
  rw [dataAfter_append]
  exact hnext

theorem Related.step (hstart : ∀ m, Disciplined again (start m))
    (heffects : ∀ m d, Effects (R m) (fun _ _ _ => True) (start m) [] d d false) (hr : Reach start (init data₀) x)
    (h : Related R data₀ x) {l : LockLabel D ρ M} (hs : Step start x l y) : Related R data₀ y := by
  have hsorted := hr.sorted hstart
  cases hs with
  | deliver t m hn =>
    refine ⟨?_, fun u m' q hu => ?_⟩ <;> simp only [Schedule.schedule_snoc, Pool.traceOf_snoc_deliver]
    · exact h.now_snoc _
    · by_cases hut : u = t
      · subst hut
        simp only [Function.update_self, Option.some.injEq, Prod.mk.injEq] at hu
        have htrace := (hr.begun u).1 hn
        have hpending : (schedule x.log).pending u = [] := by
          have hsections := Schedule.traceOf_schedule x.log u
          rw [htrace] at hsections
          exact (List.append_eq_nil_iff.mp hsections).2
        refine Or.inr fun d _ => ?_
        show Effects (R m') _ q _ d (dataAfter d ((schedule x.log).pending u)) ((schedule x.log).grip u).released
        rw [hpending, htrace, hsorted.fresh u hn, ← hu.1, ← hu.2]
        exact heffects m d
      · simp only [Function.update_of_ne hut] at hu
        exact h.effects u m' q hu
  | @call t m c k r hc hgranted =>
    have hmine : ∀ d, Fits d ((schedule x.log).pending t) →
        Effects (R m) (fun _ _ _ => True) (.call c k) (outsideAfter [] (traceOf t x.log)) d
          (dataAfter d ((schedule x.log).pending t)) ((schedule x.log).grip t).released := by
      rcases h.effects t m _ hc with ⟨-, hret⟩ | hmine
      · cases hret
      · exact hmine
    have hdelivered := ((hr.begun t).2 m _ hc).delivered
    by_cases hfirst : (c.isRelease && !((schedule x.log).grip t).released) = true
    · have hz : schedule (x.log ++ [.call t ⟨c, c.answer x.data r⟩]) =
          ((schedule x.log).commit t [⟨c, c.answer x.data r⟩]).regrip t (c.grip ((schedule x.log).grip t)) :=
        (Schedule.schedule_snoc ..).trans (if_pos hfirst)
      rw [Bool.and_eq_true, Bool.not_eq_true'] at hfirst
      cases c with
      | release l =>
        have hhere := hmine _ (hsorted.scheduled.pendings t)
        refine ⟨?_, fun u m' q hu => ?_⟩ <;> simp only [hz]
        · refine h.commit hdelivered (fun e he => ?_) hhere.1 _ _
          rw [List.mem_singleton.mp he]
          rfl
        · by_cases hut : u = t
          · subst hut
            simp only [Function.update_self, Option.some.injEq, Prod.mk.injEq] at hu
            refine Or.inr fun d _ => ?_
            have hnext := hhere.2 r
            rw [hfirst.2] at hnext
            have hnext' := hnext d
            rw [← hu.1, ← hu.2, Pool.traceOf_snoc_self, outsideAfter_append]
            simp only [Schedule.commit, Schedule.regrip, Function.update_self]
            exact hnext'
          · simp only [Function.update_of_ne hut] at hu
            rw [Pool.traceOf_snoc_other (Ne.symm hut)]
            simpa [Schedule.commit, Schedule.regrip, Function.update_of_ne hut] using h.effects u m' q hu
      | _ => cases hfirst.1
    · have hz : schedule (x.log ++ [.call t ⟨c, c.answer x.data r⟩]) =
          ((schedule x.log).defer t ⟨c, c.answer x.data r⟩).regrip t (c.grip ((schedule x.log).grip t)) :=
        (Schedule.schedule_snoc ..).trans (if_neg hfirst)
      refine ⟨?_, fun u m' q hu => ?_⟩ <;> simp only [hz]
      · exact h.now_snoc _
      · by_cases hut : u = t
        · subst hut
          simp only [Function.update_self, Option.some.injEq, Prod.mk.injEq] at hu
          refine Or.inr fun d hfits => ?_
          have hnext := effects_defer hfirst hmine d (a := c.answer x.data r)
          rw [← hu.1, ← hu.2, Pool.traceOf_snoc_self, outsideAfter_append]
          simp only [Schedule.defer, Schedule.regrip, Function.update_self, ← releasing_eq] at hfits ⊢
          exact hnext hfits
        · simp only [Function.update_of_ne hut] at hu
          rw [Pool.traceOf_snoc_other (Ne.symm hut)]
          simpa [Schedule.defer, Schedule.regrip, Function.update_of_ne hut] using h.effects u m' q hu
  | @drop t m q hq =>
    have hdelivered := ((hr.begun t).2 m q hq).delivered
    by_cases hreleased : ((schedule x.log).grip t).released = true
    · have hz : schedule (x.log ++ [.env t]) = (schedule x.log).regrip t ⟨[], true⟩ :=
        (Schedule.schedule_snoc ..).trans (if_pos hreleased)
      refine ⟨?_, fun u m' q' hu => ?_⟩ <;> simp only [hz, Pool.traceOf_snoc_env]
      · exact h.now_snoc _
      · by_cases hut : u = t
        · subst hut
          simp only [Function.update_self, Option.some.injEq, Prod.mk.injEq] at hu
          exact Or.inl ⟨by simp [Schedule.regrip], hu.2.symm⟩
        · simp only [Function.update_of_ne hut] at hu
          simpa [Schedule.regrip, Function.update_of_ne hut] using h.effects u m' q' hu
    · have hz : schedule (x.log ++ [.env t]) = ((schedule x.log).commit t []).regrip t ⟨[], true⟩ :=
        (Schedule.schedule_snoc ..).trans (if_neg hreleased)
      refine ⟨?_, fun u m' q' hu => ?_⟩ <;> simp only [hz, Pool.traceOf_snoc_env]
      · refine h.commit hdelivered (fun e he => by cases he) ?_ _ _
        rcases h.effects t m _ hq with ⟨hreleased', -⟩ | hmine
        · exact (hreleased hreleased').elim
        · exact related_of_effects (hmine _ (hsorted.scheduled.pendings t))
      · by_cases hut : u = t
        · subst hut
          simp only [Function.update_self, Option.some.injEq, Prod.mk.injEq] at hu
          exact Or.inl ⟨by simp [Schedule.regrip], hu.2.symm⟩
        · simp only [Function.update_of_ne hut] at hu
          simpa [Schedule.commit, Schedule.regrip, Function.update_of_ne hut] using h.effects u m' q' hu

theorem Reach.isRelated (hstart : ∀ m, Disciplined again (start m))
    (heffects : ∀ m d, Effects (R m) (fun _ _ _ => True) (start m) [] d d false) (h : Reach start (init data₀) x) :
    Related R data₀ x := by
  induction h with
  | refl => exact ⟨.refl, fun t m q hq => by cases hq⟩
  | step hr hs ih => exact ih.step hstart heffects hr hs

/-- Where there is one lock, the data have come from the first data by what the threads did, a step for each section. -/
theorem Reach.related [Subsingleton L] (hstart : ∀ m, Disciplined again (start m))
    (heffects : ∀ m d, Effects (R m) (fun _ _ _ => True) (start m) [] d d false) (h : Reach start (init data₀) x) :
    Relation.ReflTransGen (Done R x.log) data₀ x.data := by
  have hrelated := h.isRelated hstart heffects
  have hsorted := h.sorted hstart
  by_cases hheld : ∃ t l, (t, l, .exclusive) ∈ x.held
  · obtain ⟨t, l, hheld⟩ := hheld
    have hdata : x.data = dataAfter ((schedule x.log).now data₀) ((schedule x.log).pending t) :=
      funext fun l' => Subsingleton.elim l l' ▸ hsorted.scheduled.own t l hheld
    have hgrip := (hsorted.scheduled.grips t l _).mpr hheld
    cases hthread : x.threads t with
    | none =>
      rw [hsorted.fresh t hthread] at hgrip
      cases hgrip
    | some th =>
      obtain ⟨m, q⟩ := th
      rcases hrelated.effects t m q hthread with ⟨-, rfl⟩ | hmine
      · rw [show ((schedule x.log).grip t).held = [] from hsorted.threads t m _ hthread] at hgrip
        cases hgrip
      · rw [hdata]
        have hdelivered := ((h.begun t).2 m q hthread).delivered
        exact hrelated.now.tail ⟨t, m, _, hdelivered, List.prefix_refl _,
          related_of_effects (hmine _ (hsorted.scheduled.pendings t))⟩
  · have hdata : x.data = (schedule x.log).now data₀ :=
      funext fun l => hsorted.scheduled.rest l fun t ht => hheld ⟨t, l, ht⟩
    rw [hdata]
    exact hrelated.now

end Locked

/-! ## A program by itself -/

/-- A program carried out alone: wherever it stands, a property holds of its outside calls so far and of the data. -/
def Alone {α : Type} (P : List (Event ρ) → ((l : L) → D l) → Prop) :
    LockProg D ρ α → List (Event ρ) → ((l : L) → D l) → Prop
  | .ret _, es, d => P es d
  | .call c k, es, d => P es d ∧
    ∀ a, Alone P (k (c.answer d a)) (noteOutside es (⟨c, c.answer d a⟩ : LockEvent D ρ)) (c.update d)

section Alone

variable {α : Type} {P : List (Event ρ) → ((l : L) → D l) → Prop} {es : List (Event ρ)} {d : (l : L) → D l}

/-- Whatever part of a program is carried out on data that its calls fit, the property holds. -/
theorem alone_steps {p q : LockProg D ρ α} {t : List (LockEvent D ρ)} (h : Alone P p es d) (hs : Prog.Steps p t q)
    (hfits : Fits d t) : P (outsideAfter es t) (dataAfter d t) := by
  induction hs generalizing es d with
  | nil p =>
    cases p with
    | ret a => exact h
    | call c k => exact h.1
  | @cons c a k t q _ ih =>
    obtain ⟨hanswer, hrest⟩ := hfits
    have hnext := h.2 a
    rw [← hanswer] at hnext
    exact ih hnext hrest

end Alone

end Serial

end Interleave
