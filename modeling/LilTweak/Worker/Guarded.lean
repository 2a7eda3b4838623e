import LilTweak.Lib.Discipline
import LilTweak.Worker.History

/-!
# What a request may ask

Each batch of a request is decided on what the request has read, and the row it applies to is
then still that row: a revision stands for it. The proofs follow the programs, one lemma
for each method of the store and each route.
-/

namespace LilTweak.Worker

open LilTweak.Lib

/-- When a batch may be sent. -/
def Batch.Guard (w : World) : Batch → Prop
  | .applySnapshot x => ∃ current intent, x.Follows current intent ∧ current.Later w.db.job ∧
      ∀ i, intent = some i → w.db.job.authorized = some i
  | .recordDecisionIntent _ _ => True
  | .transition next rev _ => w.db.job.revision = rev →
      transitionAllowed w.db.job.state next = true ∧ (next = .cancelled → ¬w.db.job.Held)
  | .reserveDispatch _ reservedAt => reservedAt ≠ []
  | .setRemoteJob _ id _ => id ≠ [] ∧ id ∈ w.created

/-- When a question may be asked: a job of the core is only created for a row that is held. -/
def Query.Guard (w : World) : Query → Prop
  | .batch b => b.Guard w
  | .createCoreJob => w.db.job.Held
  | _ => True

/-- A guarded batch keeps what holds at any moment and undoes nothing. -/
theorem Batch.Guard.run {w : World} {b : Batch} (h : b.Guard w) (hw : w.Sound) :
    (w.run b).2.Sound ∧ w.Later (w.run b).2 := by
  have same : w.Sound ∧ w.Later w := ⟨hw, .refl w⟩
  cases b with
  | applySnapshot x =>
    obtain ⟨current, intent, hx, hread, hintent⟩ := h
    exact hw.applySnapshot hx hread hintent
  | recordDecisionIntent rev intent =>
    simp only [World.run]
    cases hdb : w.db.recordDecisionIntent rev intent with
    | none => exact same
    | some db =>
      obtain ⟨row, rfl, hrow, hlater, hremote, hreserved⟩ := recordDecisionIntent_later hdb hw.row
      exact hw.rewrite row hrow hlater hremote hreserved
  | transition next rev summary =>
    simp only [World.run, Database.transition]
    by_cases hrev : (w.db.job.revision : Int) = rev
    · rw [if_pos hrev]
      exact hw.transition summary (h hrev).1 (h hrev).2
    · rw [if_neg hrev]
      exact same
  | reserveDispatch rev reservedAt =>
    simp only [World.run]
    cases hdb : w.db.reserveDispatch rev reservedAt with
    | none => exact same
    | some db => exact hw.reserveDispatch h hdb
  | setRemoteJob rev id summary =>
    simp only [World.run]
    cases hdb : w.db.setRemoteJob rev id summary with
    | none => exact same
    | some db => exact hw.setRemoteJob h.1 h.2 hdb

/-- The core may create one more job for a row that is held. -/
theorem World.Sound.create {w : World} (hw : w.Sound) (hheld : w.db.job.Held) {created : List JsString}
    (h : ∀ id ∈ w.created, id ∈ created) :
    ({ w with created } : World).Sound ∧ w.Later { w with created } :=
  ⟨⟨hw.row, fun _ => hheld, fun id hid => h id (hw.bound id hid), hw.cancelled⟩,
    ⟨.refl _, fun _ _ he => he, h, fun hc => hc⟩⟩

theorem mem_createdWith {created : List JsString} (newJob : Option JsString) :
    ∀ id ∈ created, id ∈ createdWith created newJob := by
  intro id hid
  cases newJob with
  | none => exact hid
  | some new =>
    simp only [createdWith]
    split
    · exact hid
    · exact List.mem_append_left _ hid

/-- What requests rely on and keep to. -/
def discipline : Discipline Query Query.Answer World where
  inv := World.Sound
  le := World.Later
  answers w q a w' := ∃ c, w.perform c q = (a, w')
  guard := Query.Guard
  refl := .refl
  trans := .trans
  step := by
    intro w q a w' hw hg ⟨c, hc⟩
    have hw' : w' = (w.perform c q).2 := by rw [hc]
    subst hw'
    cases q with
    | batch b => exact Batch.Guard.run hg hw
    | sourceUploaded =>
      simp only [World.perform]
      cases c.uploaded with
      | none => exact ⟨hw, .refl w⟩
      | some ready => exact hw.sourceUploaded ready
    | createCoreJob => exact hw.create hg (mem_createdWith c.newJob)
    | _ => exact ⟨hw, .refl w⟩

/-- From here a request asks only guarded questions, and what it returns satisfies `post`. -/
abbrev Asks {α : Type} (m : Request.Run α) (post : α → World → Prop) (w : World) : Prop :=
  discipline.Does m post w

open Discipline (does_pure does_raise does_bind does_ite does_query does_lift)

variable {w : World} {r : Runtime} {α : Type}

/-! ## Reads -/

/-- Some moment since `w` and no later than `w'` had a row with `f` as read. -/
def Seen (w : World) {β : Type} (f : JobRow → β) (b : β) (w' : World) : Prop :=
  ∃ v : World, v.Sound ∧ w.Later v ∧ v.Later w' ∧ f v.db.job = b

/-- A question, wherever it is asked from here on. -/
theorem asks_question {q : Query} {post : q.Answer → World → Prop} (hw : w.Sound)
    (hguard : ∀ w', w'.Sound → w.Later w' → Query.Guard w' q)
    (h : ∀ w' c, w'.Sound → w.Later w' → ∀ w₃, w'.Later w₃ → (w'.perform c q).2.Later w₃ →
      post (w'.perform c q).1 w₃) : Asks (question q) post w := by
  apply does_query hw hguard
  intro w' a w'' hw' hle ha w₃ _ hle₃ hle₃'
  obtain ⟨c, hc⟩ := ha
  have hpost := h w' c hw' hle w₃ hle₃
  rw [hc] at hpost
  exact hpost hle₃'

theorem asks_read {q : Query} {f : JobRow → q.Answer} (hw : w.Sound) (hguard : ∀ w, Query.Guard w q)
    (h : ∀ w c, World.perform w c q = (f w.db.job, w)) : Asks (question q) (Seen w f) w := by
  apply asks_question hw (fun w' _ _ => hguard w')
  intro w' c hw' hle w₃ hle₃ _
  exact ⟨w', hw', hle, hle₃, (congrArg Prod.fst (h w' c)).symm⟩

theorem asks_getRemoteJobId (hw : w.Sound) :
    Asks getRemoteJobId (Seen w JobRow.remoteJobId) w :=
  asks_read hw (fun _ => trivial) fun _ _ => rfl

theorem asks_dispatchIsReserved (hw : w.Sound) :
    Asks dispatchIsReserved (Seen w fun row => truthy row.dispatchReservedAt) w :=
  asks_read (q := .dispatchIsReserved) hw (fun _ => trivial) fun _ _ => rfl

/-- A question whose answer the request makes nothing of for the row. -/
theorem asks_other {q : Query} (hw : w.Sound) (hguard : ∀ w, Query.Guard w q) :
    Asks (question q) (fun _ _ => True) w :=
  asks_question hw (fun w' _ _ => hguard w') fun _ _ _ _ _ _ _ => trivial

/-- The row a job was read from. -/
def Read (w : World) (job : JobDetail) (w' : World) : Prop :=
  w.db.job.Later job.row ∧ job.row.Later w'.db.job

theorem readJob_safe (hw : w.Sound) :
    readJob.Safe discipline.protocol (fun job w' => w'.Sound ∧ Read w job w') w := by
  intro w₁ h₁
  refine ⟨trivial, fun row w₂ ha => ?_⟩
  obtain ⟨c, hc⟩ := ha
  obtain ⟨rfl, rfl⟩ := Prod.mk.inj hc
  intro w₃ h₃
  refine ⟨trivial, fun evidence w₄ ha => ?_⟩
  obtain ⟨c, hc⟩ := ha
  obtain ⟨-, rfl⟩ := Prod.mk.inj hc
  intro w₅ h₅
  obtain ⟨hw₁, hle₁⟩ := h₁ hw
  obtain ⟨hw₃, hle₃⟩ := h₃ hw₁
  obtain ⟨hw₅, hle₅⟩ := h₅ hw₃
  exact ⟨hw₅, hle₁.row, (hle₃.trans hle₅).row⟩

theorem asks_getJob (hw : w.Sound) : Asks getJob (Read w) w := does_lift (readJob_safe hw)

/-- At an unchanged revision the row is what it was, but for the authorized decision. -/
theorem JobRow.Later.unchanged {r r' : JobRow} (h : r.Later r') (he : r'.revision = r.revision) :
    r'.state = r.state ∧ r'.remoteJobId = r.remoteJobId ∧ r'.dispatchReservedAt = r.dispatchReservedAt := by
  have hsame := h.same he.symm
  have hstate := congrArg JobRow.state hsame
  have hremote := congrArg JobRow.remoteJobId hsame
  have hreserved := congrArg JobRow.dispatchReservedAt hsame
  exact ⟨hstate, hremote, hreserved⟩

theorem Seen.later {w w' w'' : World} {β : Type} {f : JobRow → β} {b : β} (h : Seen w f b w')
    (hlater : w'.Later w'') : Seen w f b w'' := by
  obtain ⟨v, hv, hbefore, hafter, hf⟩ := h
  exact ⟨v, hv, hbefore, hafter.trans hlater, hf⟩

/-- What was seen between two moments at one revision is so at the later one. -/
theorem Seen.unchanged {w w' : World} {β : Type} {f : JobRow → β} {b : β} (h : Seen w f b w')
    (he : w'.db.job.revision = w.db.job.revision) :
    ∃ v : World, v.Sound ∧ f v.db.job = b ∧ w'.db.job.state = v.db.job.state ∧
      w'.db.job.remoteJobId = v.db.job.remoteJobId ∧
      w'.db.job.dispatchReservedAt = v.db.job.dispatchReservedAt := by
  obtain ⟨v, hv, hbefore, hafter, hf⟩ := h
  have h1 := hbefore.row.revision
  have h2 := hafter.row.revision
  exact ⟨v, hv, hf, hafter.row.unchanged (by omega)⟩

theorem truthy_false {s : Option JsString} (h : truthy s = false) (hne : s ≠ some []) : s = none := by
  cases s with
  | none => rfl
  | some x =>
    exfalso
    apply hne
    simpa [truthy] using h

theorem truthy_true {s : Option JsString} (h : truthy s = true) : s ≠ none := by
  rintro rfl
  cases h

/-! ## Methods of the store -/

/-- A batch is sent under its guard; what it answers says whether it changed the row. -/
theorem asks_changes {b : Batch} {post : Bool → World → Prop} (hw : w.Sound)
    (hguard : ∀ w', w'.Sound → w.Later w' → b.Guard w')
    (h : ∀ w', w'.Sound → w.Later w' → ∀ w₃, (w'.run b).2.Later w₃ → post (w'.run b).1 w₃) :
    Asks (changes b) post w := by
  have hquery : Asks (question (.batch b)) post w :=
    asks_question hw hguard fun w' _ hw' hle w₃ _ hle₃ => h w' hw' hle w₃ hle₃
  exact hquery

theorem asks_conflict {message : String} {post : α → World → Prop} : Asks (throwConflict message) post w :=
  does_raise

theorem asks_plain {message : String} {post : α → World → Prop} : Asks (throwPlain message) post w :=
  does_raise

/-- Nothing more is asked of what a request returns. -/
abbrev Any {α : Type} : α → World → Prop := fun _ _ => True

theorem Asks.any {m : Request.Run α} {post : α → World → Prop} (h : Asks m post w) : Asks m Any w :=
  Discipline.Does.weaken h fun _ _ _ => trivial

/-- A job was read at the expected revision, and where the move is a cancellation the row has been
seen without a job of the core at that revision or a later one. -/
theorem asks_transition {next : JobState} {rev : Int} {summary : JsString} (hw : w.Sound)
    (hremote : next = .cancelled → ∃ v : World, v.Later w ∧ rev ≤ v.db.job.revision ∧
      v.db.job.remoteJobId = none) : Asks (transition next rev summary) Any w := by
  apply does_bind hw (asks_getJob hw)
  intro current w₁ hw₁ h₁ hread
  apply does_ite
  · exact fun _ => asks_conflict
  intro hrev
  rw [ne_eq, not_not] at hrev
  have hreserved : Asks (cancelsReserved next) (fun reserved w' => next = .cancelled →
      Seen w₁ (fun row => truthy row.dispatchReservedAt) reserved w') w₁ := by
    apply does_ite
    · intro _
      exact (asks_dispatchIsReserved hw₁).weaken fun _ _ hseen _ => hseen
    · intro hne
      exact does_pure hw₁ fun _ _ _ hc => absurd hc hne
  apply does_bind hw₁ hreserved
  intro reserved w₂ hw₂ h₂ hseen
  apply does_ite
  · exact fun _ => asks_conflict
  intro hfree
  apply does_ite
  · exact fun _ => asks_conflict
  intro hallowed
  apply does_bind hw₂ (M := Any)
  · apply asks_changes hw₂
    · intro w₃ hw₃ h₃ hrev₃
      have hcurrent := hread.2.trans (h₂.trans h₃).row
      refine ⟨?_, fun hcancel => ?_⟩
      · rw [(hcurrent.unchanged (by omega)).1]
        simpa using hallowed
      · -- Every read since the first one saw the row the batch applies to.
        obtain ⟨v, hv, hvrev, hnone⟩ := hremote hcancel
        have hv₃ := (hv.trans (h₁.trans (h₂.trans h₃))).row
        have hv₁ := (hv.trans h₁).row.revision
        have hw₁₃ := (h₂.trans h₃).row.revision
        obtain ⟨u, hu, hfree', -, -, hsame⟩ := ((hseen hcancel).later h₃).unchanged (by omega)
        have hreservedAt := truthy_false (by simpa [hfree'] using hfree) hu.row.reservedAt
        rintro (hres | hrem)
        · exact hres (hsame.trans hreservedAt)
        · exact hrem ((hv₃.unchanged (by omega)).2.1.trans hnone)
    · intros
      trivial
  intro changed w₃ hw₃ _ _
  exact does_ite (fun _ => (asks_getJob hw₃).any) fun _ => asks_conflict

/-- A job of the core or a reservation that was seen still holds the row. -/
theorem Seen.held {w w' : World} {β : Type} {f : JobRow → β} {b : β} (h : Seen w f b w')
    (hf : ∀ row : JobRow, f row = b → row.Held) : w'.db.job.Held := by
  obtain ⟨v, -, -, hafter, hv⟩ := h
  exact hafter.row.held (hf _ hv)

theorem remote_held {s : Option JsString} (h : truthy s = true) (row : JobRow)
    (hrow : row.remoteJobId = s) : row.Held :=
  .inr (hrow ▸ truthy_true h)

theorem reserved_held {b : Bool} (h : b = true) (row : JobRow)
    (hrow : truthy row.dispatchReservedAt = b) : row.Held :=
  .inl (truthy_true (hrow.trans h))

/-- The row that is held now stays held while the job is read again. -/
theorem asks_getJob_held (hw : w.Sound) (hheld : w.db.job.Held) :
    Asks getJob (fun _ w' => w'.db.job.Held) w := by
  apply (asks_getJob hw).weaken
  intro job w' hread
  exact (hread.1.trans hread.2).held hheld

theorem reserve_held {db db' : Database} {rev : Int} {reservedAt : JsString}
    (h : db.reserveDispatch rev reservedAt = some db') : db'.job.Held := by
  unfold Database.reserveDispatch at h
  split at h
  · obtain rfl := Option.some.inj h
    exact .inl (by simp)
  · cases h

/-- Wherever `reserveDispatch` returns a job, the row is held. -/
theorem asks_reserveDispatch {rev : Int} (hw : w.Sound) :
    Asks (reserveDispatch rev) (fun _ w' => w'.db.job.Held) w := by
  apply does_bind hw (asks_getJob hw)
  intro current w₁ hw₁ _ _
  apply does_ite
  · exact fun _ => asks_conflict
  intro _
  apply does_bind hw₁ (asks_getRemoteJobId hw₁)
  intro remote w₂ hw₂ _ hseen
  apply does_ite
  · intro hremote
    exact does_pure hw₂ fun _ _ hle => (hseen.later hle).held (remote_held hremote)
  intro _
  apply does_bind hw₂ (asks_dispatchIsReserved hw₂)
  intro reserved w₃ hw₃ _ hseen₃
  apply does_ite
  · intro hreserved
    exact does_pure hw₃ fun _ _ hle => (hseen₃.later hle).held (reserved_held hreserved)
  intro _
  apply does_ite
  · exact fun _ => asks_conflict
  intro _
  have hnow : Asks (question .now) (fun (reservedAt : JsString) _ => reservedAt ≠ []) w₃ :=
    asks_question hw₃ (fun _ _ _ => trivial) fun _ c _ _ _ _ _ => c.now_ne
  apply does_bind hw₃ hnow
  intro reservedAt w₄ hw₄ _ hne
  have hchanges : Asks (changes (.reserveDispatch rev reservedAt))
      (fun changed w' => changed = true → w'.db.job.Held) w₄ := by
    apply asks_changes (b := .reserveDispatch rev reservedAt) hw₄ (fun _ _ _ => hne)
    intro w' _ _ w'' hle hchanged
    apply hle.row.held
    simp only [World.run] at hchanged ⊢
    cases hdb : w'.db.reserveDispatch rev reservedAt with
    | none => simp [hdb] at hchanged
    | some db => exact reserve_held hdb
  apply does_bind hw₄ hchanges
  intro changed w₅ hw₅ _ hheld
  apply does_ite
  · exact fun hchanged => asks_getJob_held hw₅ (hheld hchanged)
  intro _
  apply does_bind hw₅ (asks_dispatchIsReserved hw₅)
  intro reserved₆ w₆ hw₆ _ hseen₆
  apply does_ite
  · exact fun hreserved => asks_getJob_held hw₆ (hseen₆.held (reserved_held hreserved))
  · exact fun _ => asks_conflict

theorem asks_setRemoteJob {rev : Int} {id summary : JsString} (hw : w.Sound) (hid : id ∈ w.created) :
    Asks (setRemoteJob rev id summary) Any w := by
  apply does_ite
  · exact fun _ => asks_plain
  intro hlength
  have hne : id ≠ [] := fun h => hlength (.inl h)
  apply does_bind hw (M := Any)
  · apply asks_changes hw
    · exact fun w' _ hle => ⟨hne, hle.created id hid⟩
    · intros
      trivial
  intro changed w₁ hw₁ _ _
  apply does_ite
  · exact fun _ => (asks_getJob hw₁).any
  intro _
  apply does_bind hw₁ (asks_getRemoteJobId hw₁).any
  intro remote w₂ hw₂ _ _
  exact does_ite (fun _ => (asks_getJob hw₂).any) fun _ => asks_conflict

/-- The reads of `applyCoreSnapshot`, in whatever order they come to be made. -/
theorem readSnapshotState_safe (hw : w.Sound) :
    readSnapshotState.Safe discipline.protocol (fun read w' => w'.Sound ∧
      read.1.1.row.Later w'.db.job ∧ ∀ i, read.2 = some i → w'.db.job.authorized = some i) w := by
  have hturn : ∀ w : World, discipline.protocol.guard w .turn := fun _ => trivial
  have hrevision : (Prog.ask .coreRevision .done : Prog Query Query.Answer (Option Int)).Safe
      discipline.protocol (fun _ _ => True) w := by
    intro w₁ _
    exact ⟨trivial, fun _ _ _ _ _ => trivial⟩
  have hintent : (Prog.ask .decisionIntent .done : Prog Query Query.Answer (Option DecisionIntent)).Safe
      discipline.protocol (fun intent w' => w'.Sound ∧
        ∀ i, intent = some i → w'.db.job.authorized = some i) w := by
    intro w₁ h₁
    refine ⟨trivial, fun intent w₂ ha w₃ h₃ => ?_⟩
    obtain ⟨c, hc⟩ := ha
    obtain ⟨rfl, rfl⟩ := Prod.mk.inj hc
    obtain ⟨hw₁, -⟩ := h₁ hw
    obtain ⟨hw₃, hle₃⟩ := h₃ hw₁
    exact ⟨hw₃, fun i hi => hle₃.row.authorized i hi⟩
  have hall := Prog.Safe.par discipline.keeps id hturn
    (Prog.Safe.par discipline.keeps id hturn (readJob_safe hw) hrevision) hintent
  exact hall.weaken fun read w' h => ⟨h.1.1.1, h.1.1.2.2, h.2.2⟩

theorem asks_mirrorSnapshot {snapshot : CoreSnapshot} (hw : w.Sound) :
    Asks (mirrorSnapshot r snapshot) Any w := by
  apply does_bind hw (does_lift (readSnapshotState_safe hw))
  rintro ⟨⟨current, coreRevision⟩, intent⟩ w₁ hw₁ _ ⟨hread, hintent⟩
  simp only
  cases happ : applyCoreSnapshot r current.row current.evidence coreRevision intent snapshot with
  | error e => exact does_raise
  | ok decided =>
    cases decided with
    | none => exact does_pure hw₁ fun _ _ _ => trivial
    | some x =>
      apply does_bind hw₁ (M := Any)
      · apply asks_changes hw₁
        · intro w' _ hle
          exact ⟨current.row, intent, applyCoreSnapshot_follows happ, hread.trans hle.row,
            fun i hi => hle.row.authorized i (hintent i hi)⟩
        · intros
          trivial
      intro changed w₂ hw₂ _ _
      exact does_ite (fun _ => (asks_getJob hw₂).any) fun _ => asks_conflict

theorem asks_recordDecisionIntent {rev : Int} {intent : DecisionIntent} (hw : w.Sound) :
    Asks (recordDecisionIntent rev intent) Any w := by
  apply does_ite
  · exact fun _ => asks_conflict
  intro _
  apply does_bind hw (M := Any)
  · exact asks_changes hw (fun _ _ _ => trivial) fun _ _ _ _ _ => trivial
  intro changed w₁ hw₁ _ _
  exact does_ite (fun _ => does_pure hw₁ fun _ _ _ => trivial) fun _ => asks_conflict

/-! ## Routes -/

theorem asks_callCore {a : Except CoreFailure α} {post : α → World → Prop} (hw : w.Sound)
    (h : ∀ b, a = .ok b → ∀ w', w.Later w' → post b w') : Asks (callCore a) post w := by
  cases a with
  | error f => exact does_raise
  | ok b => exact does_pure hw fun w' _ hle => h b rfl w' hle

theorem asks_getCoreJob (hw : w.Sound) : Asks getCoreJob Any w := by
  apply does_bind (m := question .getCoreJob) (f := callCore) hw (asks_other hw fun _ => trivial)
  intro a w₁ hw₁ _ _
  exact asks_callCore hw₁ fun _ _ _ _ => trivial

theorem createAnswer_mem {c : Choice} {created : List JsString} {p : JsString × CoreSnapshot}
    (h : c.createAnswer created = .ok p) : p.1 ∈ created := by
  unfold Choice.createAnswer at h
  split at h
  · split at h
    · next hmem =>
      obtain rfl := Except.ok.inj h
      exact hmem
    · cases h
  · cases h

/-- The core is only asked for a job of a row that is held, and answers with one it has created. -/
theorem asks_createCoreJob (hw : w.Sound) (hheld : w.db.job.Held) :
    Asks createCoreJob (fun p w' => p.1 ∈ w'.created) w := by
  apply does_bind (m := question .createCoreJob) (f := callCore) hw
    (M := fun (a : Except CoreFailure (JsString × CoreSnapshot)) w' => ∀ p, a = .ok p → p.1 ∈ w'.created)
  · refine asks_question hw (fun w' _ hle => hle.row.held hheld) fun w' c _ _ w₃ _ hle₃ p hp => ?_
    exact hle₃.created _ (createAnswer_mem hp)
  intro a w₁ hw₁ _ ha
  exact asks_callCore hw₁ fun p hp w' hle => hle.created _ (ha p hp)

theorem asks_mirror {snapshot : CoreSnapshot} (hw : w.Sound) : Asks (mirror r snapshot) Any w := by
  apply does_bind hw (M := Any)
  · exact asks_other (q := .mirrorCoreSnapshotEvidence snapshot) hw fun _ => trivial
  intro mirrored w₁ hw₁ _ _
  cases mirrored with
  | none => exact asks_plain
  | some snapshot =>
    apply does_bind hw₁ (asks_mirrorSnapshot hw₁)
    intro job w₂ hw₂ _ _
    exact does_pure hw₂ fun _ _ _ => trivial

theorem asks_poll (hw : w.Sound) : Asks (poll r) Any w := by
  apply does_bind hw (asks_getJob hw).any
  intro job w₁ hw₁ _ _
  apply does_bind hw₁ (asks_getRemoteJobId hw₁).any
  intro remote w₂ hw₂ _ _
  apply does_ite
  · intro _
    apply does_bind hw₂ (M := Any)
    · exact asks_other (q := .coreRevision) hw₂ fun _ => trivial
    intro _ w₃ hw₃ _ _
    apply does_bind hw₃ (asks_getCoreJob hw₃)
    intro snapshot w₄ hw₄ _ _
    exact asks_mirror hw₄
  · exact fun _ => does_pure hw₂ fun _ _ _ => trivial

theorem asks_dispatch {rev : Int} (hw : w.Sound) : Asks (dispatch r rev) Any w := by
  apply does_bind hw (asks_getJob hw).any
  intro job w₁ hw₁ _ _
  apply does_bind hw₁ (M := Any)
  · exact asks_other (q := .modeSourcePolicy) hw₁ fun _ => trivial
  intro policy w₂ hw₂ _ _
  apply does_ite
  · exact fun _ => does_pure hw₂ fun _ _ _ => trivial
  intro _
  apply does_ite
  · exact fun _ => does_pure hw₂ fun _ _ _ => trivial
  intro _
  apply does_bind hw₂ (asks_getRemoteJobId hw₂).any
  intro remote w₃ hw₃ _ _
  apply does_ite
  · intro _
    apply does_bind hw₃ (asks_getCoreJob hw₃)
    intro recovered w₄ hw₄ _ _
    exact asks_mirror hw₄
  intro _
  apply does_bind hw₃ (M := Any)
  · exact asks_other (q := .frozenRequest) hw₃ fun _ => trivial
  intro frozen w₄ hw₄ _ _
  apply does_ite
  · exact fun _ => asks_plain
  intro _
  apply does_bind hw₄ (asks_reserveDispatch hw₄)
  intro reservedJob w₅ hw₅ _ hheld
  apply does_bind hw₅ (asks_createCoreJob hw₅ hheld)
  rintro ⟨remoteJobId, snapshot⟩ w₆ hw₆ _ hid
  apply does_bind hw₆ (asks_setRemoteJob hw₆ hid)
  intro _ w₇ hw₇ _ _
  exact asks_mirror hw₇

theorem asks_cancelledCoreJob (hw : w.Sound) : Asks cancelledCoreJob Any w := by
  apply does_bind hw (M := Any)
  · exact asks_other (q := .cancelCoreJob) hw fun _ => trivial
  intro core w₁ hw₁ _ _
  split
  · apply does_ite
    · exact fun _ => does_raise
    intro _
    apply does_bind hw₁ (asks_getCoreJob hw₁)
    intro recovered w₂ hw₂ _ _
    exact does_ite (fun _ => does_raise) fun _ => does_pure hw₂ fun _ _ _ => trivial
  · exact asks_callCore hw₁ fun _ _ _ _ => trivial

theorem asks_cancel {rev : Int} (hw : w.Sound) : Asks (cancel r rev) Any w := by
  apply does_bind hw (asks_getJob hw)
  intro job w₁ hw₁ _ hread
  apply does_ite
  · exact fun _ => does_pure hw₁ fun _ _ _ => trivial
  intro _
  apply does_ite
  · exact fun _ => does_pure hw₁ fun _ _ _ => trivial
  intro hchecked
  have hrev : (job.row.revision : Int) = rev := by
    by_contra hne
    exact hchecked (.inl hne)
  apply does_bind hw₁ (asks_getRemoteJobId hw₁)
  intro remote w₂ hw₂ h₂ hseen
  apply does_ite
  · intro hnone
    apply does_bind hw₂ (asks_dispatchIsReserved hw₂).any
    intro reserved w₃ hw₃ h₃ _
    apply does_ite
    · exact fun _ => does_pure hw₃ fun _ _ _ => trivial
    intro _
    apply does_bind hw₃ (M := Any)
    · apply asks_transition hw₃
      intro _
      obtain ⟨v, hv, hbefore, hafter, hremote⟩ := hseen
      have hrevision := (hread.2.trans hbefore.row).revision
      refine ⟨v, hafter.trans h₃, by omega, ?_⟩
      exact truthy_false (by rw [hremote]; exact hnone) hv.row.remoteJobId
    intro job w₄ hw₄ _ _
    exact does_pure hw₄ fun _ _ _ => trivial
  · intro _
    apply does_bind hw₂ (M := Any)
    · exact asks_other (q := .coreRevision) hw₂ fun _ => trivial
    intro coreRevision w₃ hw₃ _ _
    apply does_ite
    · exact fun _ => asks_plain
    intro _
    apply does_bind hw₃ (asks_cancelledCoreJob hw₃)
    intro snapshot w₄ hw₄ _ _
    exact asks_mirror hw₄

end LilTweak.Worker
