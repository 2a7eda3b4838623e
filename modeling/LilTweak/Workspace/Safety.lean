import LilTweak.Workspace.Ownership
import Mathlib

/-!
# What each call keeps to

One lemma for each program of the workspace: the facts it starts with, those it returns with, and
those that are left where it throws. A write that threw may have been made or not; the two cases are
carried on until a record that is read tells them apart.
-/

namespace LilTweak.Workspace

open LilTweak.Lib

variable {P : Platform} {follows : Prop} {n : Nat}

/-- A fact about the stores, for each private state. -/
abbrev Fact := List JsString → Stores → Prop

/-- Call `n` goes from `pre` to `ok`, or throws where `err` holds. -/
abbrev Goes (P : Platform) (follows : Prop) (n : Nat) {α : Type} (pre : Fact) (m : Method α) (ok : α → Fact)
    (err : Problem → Fact) : Prop := (sharing P follows).Triple n pre m ok err

/-- The other calls of `n` do not undo the fact. -/
abbrev Stays (P : Platform) (follows : Prop) (n : Nat) (F : Stores → Prop) : Prop := (sharing P follows).Stable n F

open Sharing (triple_pure triple_raise triple_bind triple_handle triple_ite triple_query triple_get triple_put
  stable_const stable_of_le)

/-! ## Questions -/

/-- The question may do what it does and throw. -/
def MayLose (follows : Prop) (q : Query) : Prop :=
  follows → ∀ owner p, q = .insert owner p → p.attachments = []

/-- A question is served and answered, or it throws: unserved, or served where that may happen. -/
theorem answered {s s' : Stores} {q : Query} {a : q.Answer} (h : (sharing P follows).answers s q a s') :
    (∃ c reply, a = some reply ∧ s.serve c q = (some reply, s')) ∨
    a = none ∧ (s' = s ∨ MayLose follows q ∧ ∃ c, s' = (s.serve c q).2) := by
  obtain ⟨c, hc, hlost⟩ := h
  unfold Stores.perform at hc
  split at hc
  · cases hreply : (s.serve c q).1 with
    | some reply =>
      obtain ⟨rfl, rfl⟩ := Prod.mk.inj hc
      exact .inl ⟨c, reply, hreply, Prod.ext hreply rfl⟩
    | none =>
      obtain ⟨rfl, rfl⟩ := Prod.mk.inj hc
      refine .inr ⟨hreply, .inl ?_⟩
      cases q with
      | newId call kind =>
        simp only [Stores.serve] at hreply ⊢
        split at hreply
        · cases hreply
        · next hnew => rw [if_neg hnew]
      | insert owner p =>
        simp only [Stores.serve] at hreply ⊢
        split at hreply
        · rfl
        · cases hreply
      | update owner p expected =>
        simp only [Stores.serve] at hreply
        split at hreply
        · split at hreply
          · cases hreply
          · cases hreply
        · cases hreply
      | _ => cases hreply
  · obtain ⟨rfl, rfl⟩ := Prod.mk.inj hc
    exact .inr ⟨rfl, .inl rfl⟩
  · next hafter =>
    obtain ⟨rfl, rfl⟩ := Prod.mk.inj hc
    refine .inr ⟨rfl, .inr ⟨?_, c, rfl⟩⟩
    intro hf owner p hq
    by_contra hne
    exact hlost hf owner p hq hne hafter

theorem goes_request {q : Query} {pre : Fact} {ok : q.Reply → Fact} {fail : Fact}
    (hpre : ∀ l, Stays P follows n (pre l)) (hok : ∀ reply l, Stays P follows n (ok reply l))
    (hfail : ∀ l, Stays P follows n (fail l)) (hguard : ∀ l s, s.Sound P follows → pre l s → q.Guard P follows n s)
    (served : ∀ l s c reply s', s.Sound P follows → pre l s → s.serve c q = (some reply, s') → s'.Sound P follows →
      s.Later s' → ok reply l s')
    (unserved : ∀ l s, s.Sound P follows → pre l s → fail l s)
    (lost : ∀ l s c, s.Sound P follows → pre l s → MayLose follows q → (s.serve c q).2.Sound P follows →
      s.Later (s.serve c q).2 → fail l (s.serve c q).2) :
    Goes P follows n pre (request q) ok fun e l s => e = .storage ∧ fail l s := by
  have hquery : Goes P follows n pre (Act.query q) (fun (answer : Option q.Reply) l s =>
      (∀ reply, answer = some reply → ok reply l s) ∧ (answer = none → fail l s))
      fun e l s => e = .storage ∧ fail l s := by
    apply triple_query hpre
    · intro a l
      exact (Sharing.Stable.forall fun reply => Sharing.Stable.imp fun _ => hok reply l).and
        (Sharing.Stable.imp fun _ => hfail l)
    · exact hguard
    · intro l s a s' hs hp ha hs' hle
      obtain ⟨c, reply, rfl, hserve⟩ | ⟨rfl, hcase⟩ := answered ha
      · have hreply := served l s c reply s' hs hp hserve hs' hle
        exact ⟨fun r hr => Option.some.inj hr ▸ hreply, nofun⟩
      · refine ⟨nofun, fun _ => ?_⟩
        obtain rfl | ⟨hlose, c, rfl⟩ := hcase
        · exact unserved l _ hs hp
        · exact lost l s c hs hp hlose hs' hle
  apply triple_bind hquery
  intro answer
  have hstays : ∀ l, Stays P follows n fun s =>
      (∀ reply, answer = some reply → ok reply l s) ∧ (answer = none → fail l s) := fun l =>
    (Sharing.Stable.forall fun reply => Sharing.Stable.imp fun _ => hok reply l).and
      (Sharing.Stable.imp fun _ => hfail l)
  cases answer with
  | some reply => exact triple_pure hstays fun _ _ _ h => h.1 reply rfl
  | none => exact triple_raise hstays fun _ _ _ h => ⟨rfl, h.2 rfl⟩

/-- A question that changes nothing. -/
theorem goes_read {q : Query} {F : Fact} {ok : q.Reply → Fact} (hF : ∀ l, Stays P follows n (F l))
    (hok : ∀ reply l, Stays P follows n (ok reply l)) (hread : ∀ (s : Stores) c, (s.serve c q).2 = s)
    (hguard : ∀ s, q.Guard P follows n s)
    (served : ∀ l s c reply, s.Sound P follows → F l s → (s.serve c q).1 = some reply → ok reply l s) :
    Goes P follows n F (request q) (fun reply l s => F l s ∧ ok reply l s) fun e l s => e = .storage ∧ F l s := by
  apply goes_request hF (fun reply l => (hF l).and (hok reply l)) hF (fun _ s _ _ => hguard s)
  · intro l s c reply s' hs hp hserve _ _
    have hsame : s' = s := by rw [← hread s c, hserve]
    subst hsame
    exact ⟨hp, served l _ c reply hs hp (congrArg Prod.fst hserve)⟩
  · exact fun _ _ _ h => h
  · intro l s c _ hp _ _ _
    rw [hread]
    exact hp

theorem goes_checked {α : Type} {x : Checked α} {F : Fact} (hF : ∀ l, Stays P follows n (F l)) :
    Goes P follows n F (checked x) (fun a l s => x = .ok a ∧ F l s) fun e l s => (∃ message, e = .error message) ∧ F l s := by
  cases x with
  | ok a => exact triple_pure hF fun _ _ _ h => ⟨rfl, h⟩
  | error message => exact triple_raise hF fun _ _ _ h => ⟨⟨message, rfl⟩, h⟩

/-- Anything may be thrown. -/
abbrev Thrown : Problem → Fact := fun _ _ _ => True

theorem Goes.thrown {α : Type} {pre : Fact} {m : Method α} {ok : α → Fact} {err : Problem → Fact}
    (h : Goes P follows n pre m ok err) : Goes P follows n pre m ok Thrown :=
  Sharing.Triple.weaken h (fun _ _ _ h => h) (fun _ _ _ _ h => h) fun _ _ _ _ _ => trivial

/-! ## Loading and writing -/

theorem goes_loadProject {owner projectId : JsString} {F : Fact} {G : LoadedProject → Fact}
    (hF : ∀ l, Stays P follows n (F l)) (hG : ∀ loaded l, Stays P follows n (G loaded l))
    (h : ∀ l s row, s.Sound P follows → F l s → s.rows.get? projectId = some row → row.owner = owner →
      G ⟨readRecord row.record, row.record⟩ l s) :
    Goes P follows n F (loadProject P owner projectId) (fun loaded l s => F l s ∧ G loaded l s) fun _ l s => F l s := by
  apply triple_ite
  · exact fun _ => triple_raise hF fun _ _ _ h => h
  intro _
  have hselect : Goes P follows n F (request (.select owner projectId)) (fun (found : Option ProjectDocument) l s =>
      F l s ∧ ∀ record, found = some record → G ⟨readRecord record, record⟩ l s) fun e l s => e = .storage ∧ F l s := by
    apply goes_read hF
    · exact fun found l => Sharing.Stable.forall fun record => Sharing.Stable.imp fun _ => hG _ l
    · exact fun _ _ => rfl
    · exact fun _ => trivial
    · intro l s c found hs hp hfound record hrecord
      obtain rfl : (s.rows.get? projectId).bind (fun row => if row.owner = owner then some row.record else none) = found :=
        Option.some.inj hfound
      obtain ⟨row, hrow, hmatch⟩ := Option.bind_eq_some_iff.mp hrecord
      split at hmatch
      · next howner =>
        obtain rfl := Option.some.inj hmatch
        exact h l s row hs hp hrow howner
      · cases hmatch
  apply triple_bind (Sharing.Triple.weaken hselect (fun _ _ _ h => h) (fun _ _ _ _ h => h) fun _ _ _ _ h => h.2)
  intro found
  have hstable : ∀ l, Stays P follows n fun s => F l s ∧ ∀ record, found = some record →
      G ⟨readRecord record, record⟩ l s :=
    fun l => (hF l).and (Sharing.Stable.forall fun _ => Sharing.Stable.imp fun _ => hG _ l)
  cases found with
  | none => exact triple_raise hstable fun _ _ _ h => h.1
  | some record =>
    have hproject : Goes P follows n (fun l s => F l s ∧ ∀ r, some record = some r → G ⟨readRecord r, r⟩ l s)
        (checked (decodeProject P record)) (fun project l s => project = readRecord record ∧ F l s ∧
          G ⟨readRecord record, record⟩ l s) fun _ l s => F l s := by
      apply Sharing.Triple.weaken (goes_checked hstable) (fun _ _ _ h => h)
      · intro project l s _ ⟨hok, hF', hG'⟩
        unfold decodeProject at hok
        split at hok
        · cases hok
        · exact ⟨(Except.ok.inj hok).symm, hF', hG' record rfl⟩
      · exact fun _ _ _ _ h => h.2.1
    apply triple_bind hproject
    intro project
    have hpre : ∀ l, Stays P follows n fun s => project = readRecord record ∧ F l s ∧
        G ⟨readRecord record, record⟩ l s := fun l => (stable_const _).and ((hF l).and (hG _ l))
    apply triple_pure hpre
    intro l s _ ⟨hread, hok⟩
    rw [hread]
    exact hok

/-- The row of the project has held the record. -/
def Held (owner : JsString) (project : ProjectDocument) (s : Stores) : Prop :=
  ∃ row, s.rows.get? project.id = some row ∧ row.owner = owner ∧ project ∈ row.history

theorem stays_held {owner : JsString} {project : ProjectDocument} : Stays P follows n (Held owner project) := by
  apply stable_of_le
  intro s s' _ ⟨row, hrow, howner, hheld⟩ hle
  obtain ⟨row', hrow', hlater⟩ := hle _ row hrow
  exact ⟨row', hrow', hlater.owner.trans howner, hlater.history _ hheld⟩

/-- What a write starts with (`F`), what holds while it has not been made (`N`) and what holds once it
has (`Y`); `seen` is what a list of attachments shows once it has. -/
structure Attempt (P : Platform) (follows : Prop) (n : Nat) (owner : JsString) (project expected : ProjectDocument)
    (F N Y : Stores → Prop) (seen : List Attachment → Prop) : Prop where
  staysF : Stays P follows n F
  staysN : Stays P follows n N
  staysY : Stays P follows n Y
  guard : ∀ s, s.Sound P follows → F s → Query.Guard P follows n s (.update owner project expected)
  before : ∀ s, s.Sound P follows → F s → N s
  after : ∀ s row, s.Sound P follows → F s → s.rows.get? project.id = some row → row.owner = owner →
    row.record = expected →
    N { s with rows := s.rows.set project.id ⟨row.owner, project, row.history⟩ } ∨
      Y { s with rows := s.rows.set project.id ⟨row.owner, project, row.history⟩ }
  unseen : ∀ s row, s.Sound P follows → N s → s.rows.get? project.id = some row → ¬seen row.record.attachments
  seen : ∀ s row, s.Sound P follows → Y s → s.rows.get? project.id = some row →
    seen row.record.attachments ∧ row.record ≠ expected

/-- What is left where a write throws. -/
def Failed (N Y : Stores → Prop) (seen : List Attachment → Prop) (e : Problem) (s : Stores) : Prop :=
  match e with
  | .conflict (some current) => N s ∧ ¬seen current.attachments ∨ Y s ∧ seen current.attachments
  | .indeterminate => True
  | _ => N s

section
variable {owner : JsString} {project expected : ProjectDocument} {F N Y : Stores → Prop}
  {seen : List Attachment → Prop}

/-- The update writes the record over the one it expects, or changes nothing. -/
theorem serve_update {s s' : Stores} {c : Choice} {changes : Bool}
    (h : s.serve c (.update owner project expected) = (some changes, s')) :
    changes = false ∧ s' = s ∨ changes = true ∧ ∃ row, s.rows.get? project.id = some row ∧ row.owner = owner ∧
      row.record = expected ∧ s' = { s with rows := s.rows.set project.id ⟨row.owner, project, row.history⟩ } := by
  simp only [Stores.serve] at h
  split at h
  · next row hrow =>
    split at h
    · next hmatch =>
      obtain ⟨hchanges, rfl⟩ := Prod.mk.inj h
      exact .inr ⟨(Option.some.inj hchanges).symm, row, hrow, hmatch.1, hmatch.2, rfl⟩
    · obtain ⟨hchanges, rfl⟩ := Prod.mk.inj h
      exact .inl ⟨(Option.some.inj hchanges).symm, rfl⟩
  · obtain ⟨hchanges, rfl⟩ := Prod.mk.inj h
    exact .inl ⟨(Option.some.inj hchanges).symm, rfl⟩

/-- The update is answered, or it throws and has been made or not. -/
theorem goes_update (h : Attempt P follows n owner project expected F N Y seen) :
    Goes P follows n (fun _ s => F s) (request (.update owner project expected))
      (fun (changes : Bool) _ s => (changes = true → Held owner project s) ∧ (changes = false → N s))
      fun e _ s => e = .storage ∧ (N s ∨ Y s) := by
  apply goes_request (fun _ => h.staysF)
  · exact fun changes _ => (Sharing.Stable.imp fun _ => stays_held).and (Sharing.Stable.imp fun _ => h.staysN)
  · exact fun _ => h.staysN.or h.staysY
  · exact fun _ s hs hF => h.guard s hs hF
  · intro _ s c changes s' hs hF hserve _ _
    obtain ⟨rfl, rfl⟩ | ⟨rfl, row, hrow, howner, _, rfl⟩ := serve_update hserve
    · exact ⟨nofun, fun _ => h.before _ hs hF⟩
    · exact ⟨fun _ => ⟨_, Dict.get?_set_self _ _ _, howner, List.mem_cons_self⟩, nofun⟩
  · exact fun _ s hs hF => .inl (h.before s hs hF)
  · intro _ s c hs hF _ _ _
    cases hserve : s.serve c (.update owner project expected) with
    | mk changes s' =>
      cases changes with
      | none =>
        simp only [Stores.serve] at hserve
        split at hserve
        · split at hserve
          · cases (Prod.mk.inj hserve).1
          · cases (Prod.mk.inj hserve).1
        · cases (Prod.mk.inj hserve).1
      | some changes =>
        obtain ⟨_, rfl⟩ | ⟨_, row, hrow, howner, hrecord, rfl⟩ := serve_update hserve
        · exact .inl (h.before _ hs hF)
        · exact h.after s row hs hF hrow howner hrecord

/-- What the record read after a write that threw tells. -/
def Told (owner : JsString) (project expected : ProjectDocument) (N Y : Stores → Prop)
    (seen : List Attachment → Prop) (record : ProjectDocument) (s : Stores) : Prop :=
  (record = project → Held owner project s) ∧ (N s ∧ ¬seen record.attachments ∨
    Y s ∧ seen record.attachments ∧ record ≠ expected)

theorem goes_reconcile (h : Attempt P follows n owner project expected F N Y seen) {error : Problem}
    (herror : error = .storage) : Goes P follows n (fun _ s => N s ∨ Y s) (reconcile P project owner expected error)
      (fun _ _ s => Held owner project s) fun e _ s => Failed N Y seen e s := by
  have hN := h.staysN
  have hY := h.staysY
  have htold : ∀ record, Stays P follows n (Told owner project expected N Y seen record) := fun record =>
    (Sharing.Stable.imp fun _ => stays_held).and ((hN.and (stable_const _)).or (hY.and (stable_const _)))
  have hload : Goes P follows n (fun _ s => N s ∨ Y s) (loadProject P owner project.id)
      (fun loaded _ s => (N s ∨ Y s) ∧ loaded.project = readRecord loaded.record ∧
        Told owner project expected N Y seen loaded.record s) fun _ _ s => N s ∨ Y s := by
    apply goes_loadProject (fun _ => hN.or hY) (fun loaded _ => (stable_const _).and (htold _))
    intro _ s row hs hNY hrow howner
    refine ⟨rfl, fun hrecord => ⟨row, hrow, howner, hrecord ▸ List.mem_cons_self⟩, ?_⟩
    exact hNY.imp (fun hn => ⟨hn, h.unseen s row hs hn hrow⟩) fun hy => ⟨hy, h.seen s row hs hy hrow⟩
  apply triple_bind (triple_handle hload fun _ => triple_raise (fun _ => hN.or hY) fun _ _ _ _ => trivial)
  intro loaded
  have hstable : ∀ l : List JsString, Stays P follows n fun s => (N s ∨ Y s) ∧
      loaded.project = readRecord loaded.record ∧ Told owner project expected N Y seen loaded.record s :=
    fun _ => (hN.or hY).and ((stable_const _).and (htold _))
  apply triple_ite
  · exact fun hsame => triple_pure hstable fun _ _ _ ht => ht.2.2.1 hsame
  intro _
  apply triple_ite
  · intro _
    apply triple_raise hstable
    intro _ s _ ⟨_, hread, _, htold⟩
    rw [hread]
    exact htold.imp id fun hy => ⟨hy.1, hy.2.1⟩
  · intro hexpected
    apply triple_raise hstable
    intro _ s _ ⟨_, _, _, htold⟩
    rw [herror]
    exact htold.elim (fun hn => hn.1) fun hy => absurd (not_not.mp hexpected) hy.2.2

theorem goes_stale (h : Attempt P follows n owner project expected F N Y seen) :
    Goes P follows n (fun _ s => N s) (stale P project owner) (fun _ _ s => Held owner project s)
      fun e _ s => Failed N Y seen e s := by
  have hN := h.staysN
  have hload : Goes P follows n (fun _ s => N s) (loadProject P owner project.id)
      (fun loaded _ s => N s ∧ ¬seen loaded.project.attachments) fun _ _ s => N s := by
    apply goes_loadProject (fun _ => hN) (fun _ _ => stable_const _)
    exact fun _ s row hs hn hrow _ => h.unseen s row hs hn hrow
  have hfound : ∀ current : Option ProjectDocument, Stays P follows n fun s =>
      N s ∧ ∀ p, current = some p → ¬seen p.attachments := fun _ => hN.and (stable_const _)
  have hcurrent : Goes P follows n (fun _ s => N s) (do
      let loaded ← loadProject P owner project.id
      pure (some loaded.project)) (fun current _ s => N s ∧ ∀ p, current = some p → ¬seen p.attachments)
      fun _ _ s => N s := by
    apply triple_bind hload
    intro loaded
    apply triple_pure (fun _ => hN.and (stable_const _))
    intro _ s _ ⟨hn, hunseen⟩
    exact ⟨hn, fun p hp => Option.some.inj hp ▸ hunseen⟩
  have hnone : ∀ e : Problem, Goes P follows n (fun _ s => N s) (pure none)
      (fun (current : Option ProjectDocument) _ s => N s ∧ ∀ p, current = some p → ¬seen p.attachments)
      fun e _ s => Failed N Y seen e s := by
    intro e
    apply triple_pure (fun _ => hN)
    exact fun _ _ _ hn => ⟨hn, fun p hp => by cases hp⟩
  apply triple_bind (triple_handle hcurrent hnone)
  intro current
  apply triple_raise (fun _ => hfound current)
  intro _ s _ ⟨hn, hunseen⟩
  cases current with
  | none => exact hn
  | some p => exact .inl ⟨hn, hunseen p rfl⟩

/-- A write returns once the row has held its record. -/
theorem goes_writeProject (h : Attempt P follows n owner project expected F N Y seen) :
    Goes P follows n (fun _ s => F s) (writeProject P project owner expected) (fun _ _ s => Held owner project s)
      fun e _ s => Failed N Y seen e s := by
  have hrecord : Goes P follows n (fun _ s => F s) (checked (projectRecord P project))
      (fun record _ s => record = project ∧ F s) fun e _ s => Failed N Y seen e s := by
    apply Sharing.Triple.weaken (goes_checked fun _ => h.staysF)
    · exact fun _ _ _ hF => hF
    · intro record _ s _ ⟨hok, hF⟩
      unfold projectRecord at hok
      split at hok
      · cases hok
      · exact ⟨(Except.ok.inj hok).symm, hF⟩
    · intro e _ s hs ⟨⟨message, he⟩, hF⟩
      rw [he]
      exact h.before s hs hF
  apply triple_bind hrecord
  intro record
  by_cases hsame : record = project
  · subst hsame
    have hupdate : Goes P follows n (fun _ s => record = record ∧ F s)
        (Act.handle (request (.update owner record expected)) fun error => do
          reconcile P record owner expected error
          pure true)
        (fun (changes : Bool) _ s => (changes = true → Held owner record s) ∧ (changes = false → N s))
        fun e _ s => Failed N Y seen e s := by
      have hasked : Goes P follows n (fun _ s => record = record ∧ F s) (request (.update owner record expected))
          (fun (changes : Bool) _ s => (changes = true → Held owner record s) ∧ (changes = false → N s))
          fun e _ s => e = .storage ∧ (N s ∨ Y s) :=
        Sharing.Triple.weaken (goes_update h) (fun _ _ _ hF => hF.2) (fun _ _ _ _ hok => hok) fun _ _ _ _ he => he
      apply triple_handle hasked
      intro error
      by_cases herror : error = .storage
      · have hreconcile : Goes P follows n (fun _ s => error = .storage ∧ (N s ∨ Y s))
            (reconcile P record owner expected error) (fun _ _ s => Held owner record s)
            fun e _ s => Failed N Y seen e s :=
          Sharing.Triple.weaken (goes_reconcile h herror) (fun _ _ _ he => he.2) (fun _ _ _ _ hok => hok)
            fun _ _ _ _ he => he
        apply triple_bind hreconcile
        exact fun _ => triple_pure (fun _ => stays_held) fun _ _ _ hheld => ⟨fun _ => hheld, nofun⟩
      · exact Sharing.triple_never fun _ _ _ he => herror he.1
    apply triple_bind hupdate
    intro changes
    cases changes with
    | false =>
      apply Sharing.Triple.weaken (goes_stale h)
      · exact fun _ _ _ hok => hok.2 rfl
      · exact fun _ _ _ _ hok => hok
      · exact fun _ _ _ _ he => he
    | true =>
      apply triple_pure (fun _ => (Sharing.Stable.imp fun _ => stays_held).and (Sharing.Stable.imp fun _ => h.staysN))
      exact fun _ _ _ hok => hok.1 rfl
  · exact Sharing.triple_never fun _ _ _ hpre => hsame hpre.1

end

end LilTweak.Workspace
