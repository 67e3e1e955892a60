import Spamass.Site.Server

/-!
# What the pages show

A page comes from the request it answers, from the files that were there when the request
was handled, and from the database that was there when its search began. Both are what some
front of the writes has made; the later of the two includes the earlier.
-/
namespace Spamass.Site

open Spamass.Emailz Spamass.App Spamass.Web Spamass.Chunked Spamass.Http Spamass.SortedStore
  Spamass.Runs

section

variable {μ : Type} (messages : Messages μ) (lower : Bytes → Bytes)

/-! ### Sources -/

/-- Where a page comes from: the files were there when its request was handled, and a search that
has begun saw what was written then, or later. -/
structure Source (s : Server μ) (w : Nat) (ask : Ask μ) (head : Bytes) (id : Nat)
    (start : Serving) : Prop where
  reply : replyTo messages lower id ask = some (.page head id start)
  below : id < (s.web w).count
  snapshot : ask.now.mDb = s.snapshots w id
  files : ∃ early, early <+: s.made ∧ ask.now.files = (Disk.after early).files ∧
    (s.begun w id = true → ∃ front, early <+: front ∧ front <+: s.made ∧
      s.snapshots w id = (Disk.after front).mDb)
  waiting : s.begun w id = false → ((s.web w).responses id).calls = start.calls

def Sourced (s : Server μ) (w : Nat) (ask : Ask μ) (reply : Http.Reply) : Prop :=
  ∀ head id start, reply = .page head id start → Source messages lower s w ask head id start

structure Served (s : Server μ) (w : Nat) : Prop where
  orderly : (s.web w).Orderly
  heard : Heard messages lower (s.heard w) (s.web w)
  begun : ∀ id, s.begun w id = true → id < (s.web w).count
  sourced : (s.web w).crashed = false →
    List.Forall₂ (Sourced messages lower s w) (s.heard w).asked (s.web w).replies

variable {messages lower} {s s' : Server μ} {w : Nat}

/-- A step that leaves the connection alone, and what was written. -/
structure LeavesConnection (s s' : Server μ) (w : Nat) : Prop where
  web : s'.web w = s.web w
  heard : s'.heard w = s.heard w
  snapshots : s'.snapshots w = s.snapshots w
  begun : s'.begun w = s.begun w
  made : s.made <+: s'.made

theorem Source.leaves {ask : Ask μ} {head : Bytes} {id : Nat} {start : Serving}
    (source : Source messages lower s w ask head id start) (leaves : LeavesConnection s s' w) :
    Source messages lower s' w ask head id start := by
  obtain ⟨early, before, files, later⟩ := source.files
  refine ⟨source.reply, ?_, ?_, ⟨early, before.trans leaves.made, files, fun begun => ?_⟩, ?_⟩
  · rw [leaves.web]
    exact source.below
  · rw [leaves.snapshots]
    exact source.snapshot
  · rw [leaves.begun] at begun
    obtain ⟨front, more, made, snapshot⟩ := later begun
    rw [leaves.snapshots]
    exact ⟨front, more, made.trans leaves.made, snapshot⟩
  · rw [leaves.begun, leaves.web]
    exact source.waiting

theorem Served.leaves (served : Served messages lower s w) (leaves : LeavesConnection s s' w) :
    Served messages lower s' w := by
  refine ⟨?_, ?_, ?_, ?_⟩
  · rw [leaves.web]
    exact served.orderly
  · rw [leaves.web, leaves.heard]
    exact served.heard
  · rw [leaves.begun, leaves.web]
    exact served.begun
  · rw [leaves.web, leaves.heard]
    exact fun running => (served.sourced running).imp fun ask reply sourced head id start page =>
      (sourced head id start page).leaves leaves

/-! ### Steps of a connection -/

private theorem hear_asked (messages : Messages μ) (h : Hearing μ) (line : Instant × Bytes) :
    (h.hear messages line).asked = h.asked ∨
      ∃ ask : Ask μ, ask.now = line.1 ∧ (h.hear messages line).asked = h.asked ++ [ask] := by
  unfold Hearing.hear
  split
  · exact .inl rfl
  split
  · exact .inr ⟨_, rfl, rfl⟩
  · split
    · exact .inr ⟨_, rfl, rfl⟩
    split <;> exact .inl rfl

theorem handled_now {c : HTTPConnection μ} {label : HTTPConnection.Label} {line : Instant × Bytes}
    (handles : handled c label = some line) : label = .run line.1 := by
  unfold handled at handles
  split at handles
  · cases handles
  · split at handles
    · rw [← Option.some.inj handles]
    · cases handles

/-- What a step hears is answered in it. -/
private theorem heard_label (messages : Messages μ) (h : Hearing μ) (c : HTTPConnection μ)
    (label : HTTPConnection.Label) :
    let h' := (handled c label).toList.foldl (Hearing.hear messages) h
    h'.asked = h.asked ∨ ∃ ask : Ask μ, label = .run ask.now ∧ h'.asked = h.asked ++ [ask] := by
  cases handles : handled c label with
  | none => exact .inl rfl
  | some line =>
    rcases hear_asked messages h line with same | ⟨ask, now, more⟩
    · exact .inl same
    · refine .inr ⟨ask, ?_, more⟩
      rw [now]
      exact handled_now handles

/-- A step of the connection that calls no search. -/
structure Advanced (messages : Messages μ) (lower : Bytes → Bytes) (s s' : Server μ) (w : Nat)
    (label : HTTPConnection.Label) : Prop where
  web : s'.web w = (s.web w).step messages lower label
  heard : s'.heard w =
    (handled (s.web w) label).toList.foldl (Hearing.hear messages) (s.heard w)
  snapshots : ∀ id < (s.web w).count, s'.snapshots w id = s.snapshots w id
  begun : s'.begun w = s.begun w
  made : s'.made = s.made
  -- a request that comes in sees the files, and its search gets a snapshot of its own
  found : ∀ now, label = .run now → now.mDb = s'.snapshots w (s.web w).count ∧
    now.files = (Disk.after s.made).files

theorem Source.advanced {ask : Ask μ} {head : Bytes} {id : Nat} {start : Serving}
    {label : HTTPConnection.Label} (source : Source messages lower s w ask head id start)
    (advanced : Advanced messages lower s s' w label) (other : ∀ id, label ≠ .call id) :
    Source messages lower s' w ask head id start := by
  have undisturbed := HTTPConnection.step_undisturbed messages lower (s.web w) label other
  rw [← advanced.web] at undisturbed
  obtain ⟨early, before, files, later⟩ := source.files
  refine ⟨source.reply, Nat.lt_of_lt_of_le source.below undisturbed.count, ?_,
    ⟨early, advanced.made ▸ before, files, fun begun => ?_⟩, fun waits => ?_⟩
  · rw [advanced.snapshots id source.below]
    exact source.snapshot
  · rw [advanced.begun] at begun
    obtain ⟨front, more, made, snapshot⟩ := later begun
    rw [advanced.snapshots id source.below]
    exact ⟨front, more, advanced.made ▸ made, snapshot⟩
  · rw [advanced.begun] at waits
    exact (undisturbed.calls id source.below).trans (source.waiting waits)

private theorem step_running {c : HTTPConnection μ} {label : HTTPConnection.Label}
    (running : (c.step messages lower label).crashed = false) : c.crashed = false := by
  cases crashed : c.crashed with
  | false => rfl
  | true =>
    unfold HTTPConnection.step at running
    rw [if_pos crashed, crashed] at running
    cases running

theorem Served.advanced {label : HTTPConnection.Label} (served : Served messages lower s w)
    (advanced : Advanced messages lower s s' w label) (other : ∀ id, label ≠ .call id)
    (fitsPage : ∀ reply ∈ (s'.web w).replies, reply.FitsPage) : Served messages lower s' w := by
  have asked := HTTPConnection.step_asked messages lower served.orderly label
  have orderly := served.orderly.step messages lower label (advanced.web ▸ fitsPage)
  have heard := HTTPConnection.heard_step served.heard served.orderly label
  rw [← advanced.web] at asked orderly heard
  rw [← advanced.heard] at heard
  have hears := heard_label messages (s.heard w) (s.web w) label
  dsimp only at hears
  rw [← advanced.heard] at hears
  refine ⟨orderly, heard, fun id begun => ?_, fun running => ?_⟩
  · rw [advanced.begun] at begun
    have undisturbed := HTTPConnection.step_undisturbed messages lower (s.web w) label other
    rw [← advanced.web] at undisturbed
    exact Nat.lt_of_lt_of_le (served.begun id begun) undisturbed.count
  · have sourced := served.sourced (step_running (advanced.web ▸ running))
    have replied := heard.replied running
    have before := sourced.length_eq
    have after_ := replied.length_eq
    have kept : List.Forall₂ (Sourced messages lower s' w) (s.heard w).asked (s.web w).replies :=
      sourced.imp fun ask reply source head id start page =>
        (source head id start page).advanced advanced other
    rcases asked with same | ⟨now, ask, reply, ran, -, -, more, page⟩
    · rcases hears with quiet | ⟨ask, -, more⟩
      · rw [quiet, same]
        exact kept
      · -- what was asked would be left without a reply
        rw [more, same, List.length_append, List.length_singleton] at after_
        omega
    · rcases hears with quiet | ⟨ask', ran', asked'⟩
      · rw [quiet, more, List.length_append, List.length_singleton] at after_
        omega
      · rw [asked', more] at replied ⊢
        refine List.rel_append kept (.cons (fun head id start shape => ?_) .nil)
        have last := List.forall₂_drop_append _ (s.web w).replies [reply] replied
        rw [← before, List.drop_left] at last
        obtain ⟨number, answers⟩ := (List.forall₂_cons.mp last).1
        rw [shape] at answers
        obtain ⟨own, -⟩ := replyTo_page answers
        obtain ⟨new, count, calls⟩ := page head id start shape
        obtain ⟨snapshot, files⟩ := advanced.found ask'.now ran'
        refine ⟨?_, ?_, ?_, ⟨s.made, ?_, files, fun begun => ?_⟩, fun _ => calls⟩
        · rw [own] at answers
          exact answers
        · rw [new, count]
          exact Nat.lt_succ_self _
        · rw [new]
          exact snapshot
        · rw [advanced.made]
        · rw [advanced.begun, new] at begun
          exact absurd (served.begun _ begun) (Nat.lt_irrefl _)

/-- The search of a response, which has begun, calls its block. -/
theorem Served.call {id : Nat} (served : Served messages lower s w) (begun : s.begun w id = true)
    (web : s'.web w = (s.web w).step messages lower (.call id)) (heard : s'.heard w = s.heard w)
    (snapshots : s'.snapshots w = s.snapshots w) (begun_ : s'.begun w = s.begun w)
    (made : s'.made = s.made) (fitsPage : ∀ reply ∈ (s'.web w).replies, reply.FitsPage) :
    Served messages lower s' w := by
  have orderly := served.orderly.step messages lower (.call id) (web ▸ fitsPage)
  have heard' := HTTPConnection.heard_step served.heard served.orderly (.call id)
  have missing : handled (s.web w) (.call id) = none := by
    unfold handled
    split <;> rfl
  rw [missing] at heard'
  -- a step of a connection that has not crashed is the call itself
  have called : (s.web w).step messages lower (.call id) = s.web w ∨
      (s.web w).step messages lower (.call id) = (s.web w).call id := by
    unfold HTTPConnection.step
    split
    · exact .inl rfl
    · exact .inr rfl
  have kept : (s'.web w).count = (s.web w).count ∧ (s'.web w).replies = (s.web w).replies ∧
      ∀ id', id' ≠ id → (s'.web w).responses id' = (s.web w).responses id' := by
    rw [web]
    rcases called with same | same
    · rw [same]
      exact ⟨rfl, rfl, fun _ _ => rfl⟩
    · rw [same]
      obtain ⟨count, others⟩ := HTTPConnection.call_others (s.web w) id
      exact ⟨count, (HTTPConnection.call_leaves (s.web w) id).replies, others⟩
  obtain ⟨count, replies, others⟩ := kept
  refine ⟨web ▸ orderly, ?_, ?_, fun running => ?_⟩
  · rw [web, heard]
    exact heard'
  · rw [begun_, count]
    exact served.begun
  · rw [heard, replies]
    refine (served.sourced (step_running (web ▸ running))).imp
      fun ask reply sourced head id' start page => ?_
    obtain ⟨answers, below, snapshot, ⟨early, before, files, later⟩, waiting⟩ :=
      sourced head id' start page
    refine ⟨answers, count ▸ below, ?_, ⟨early, made ▸ before, files, fun begins => ?_⟩, fun waits => ?_⟩
    · rw [snapshots]
      exact snapshot
    · rw [begun_] at begins
      rw [snapshots, made]
      exact later begins
    · rw [begun_] at waits
      have other : id' ≠ id := by
        rintro rfl
        rw [begun] at waits
        cases waits
      rw [others id' other]
      exact waiting waits

/-- A search begins, with what has been written so far. -/
theorem Served.begin {id : Nat} (served : Served messages lower s w)
    (below : id < (s.web w).count) (snapshot : s.snapshots w id = (Disk.after s.made).mDb)
    (begun : s'.begun w = Function.update (s.begun w) id true) (web : s'.web w = s.web w)
    (heard : s'.heard w = s.heard w) (snapshots : s'.snapshots w = s.snapshots w)
    (made : s'.made = s.made) : Served messages lower s' w := by
  have before : ∀ id', s'.begun w id' = true → id' = id ∨ s.begun w id' = true := by
    intro id' begins
    by_cases same : id' = id
    · exact .inl same
    · rw [begun, Function.update_of_ne same] at begins
      exact .inr begins
  refine ⟨?_, ?_, fun id' begins => ?_, fun running => ?_⟩
  · rw [web]
    exact served.orderly
  · rw [web, heard]
    exact served.heard
  · rw [web]
    rcases before id' begins with rfl | old
    · exact below
    · exact served.begun id' old
  · rw [web] at running
    rw [heard, web]
    refine (served.sourced running).imp fun ask reply sourced head id' start page => ?_
    obtain ⟨answers, below', snapshot', ⟨early, front, files, later⟩, waiting⟩ :=
      sourced head id' start page
    refine ⟨answers, web ▸ below', ?_, ⟨early, made ▸ front, files, fun begins => ?_⟩, fun waits => ?_⟩
    · rw [snapshots]
      exact snapshot'
    · rw [snapshots, made]
      rcases before id' begins with rfl | old
      · exact ⟨s.made, front, List.prefix_refl _, snapshot⟩
      · exact later old
    · have other : id' ≠ id := by
        rintro rfl
        rw [begun, Function.update_self] at waits
        cases waits
      rw [begun, Function.update_of_ne other] at waits
      rw [web]
      exact waiting waits

end

/-! ### Runs of the application -/

section

variable {μ : Type} {messages : Messages μ} {lower : Bytes → Bytes} {env : Nat → Env}
  {name : Nat → Bytes} {s : Server μ}

structure ServerSound (messages : Messages μ) (lower : Bytes → Bytes) (name : Nat → Bytes)
    (s : Server μ) (w : Nat) : Prop where
  mailed : Mailed lower name s
  served : Served messages lower s w

theorem sound_start (w : Nat) : ServerSound messages lower name (Server.start messages) w :=
  ⟨mailed_start .., HTTPConnection.orderly_start, HTTPConnection.heard_start,
    fun _ begun => absurd begun Bool.false_ne_true, fun _ => .nil⟩

/-- A step on the side of the web server. -/
theorem Mailed.leaves {s' : Server μ} (mailed : Mailed lower name s) (world : s'.world = s.world)
    (sockets : s'.sockets = s.sockets) (writes : s'.writes = s.writes) (disk : s'.disk = s.disk)
    (calls : s'.calls = s.calls) (made : s'.made = s.made)
    (running : s'.crashed = false → s.crashed = false) : Mailed lower name s' := by
  refine ⟨?_, ?_, ?_, ?_, ?_, ?_, ?_⟩
  · rw [world]
    exact mailed.numbered
  · rw [world]
    exact mailed.books
  · rw [world]
    exact mailed.unopened
  · rw [world]
    intro id c here
    obtain ⟨own, object⟩ := mailed.tied id c here
    refine ⟨calls ▸ own, fun still => ?_⟩
    rw [sockets, calls]
    exact object (running still)
  · rw [world, calls]
    exact mailed.unborn
  · rw [made, writes, calls]
    exact mailed.writes
  · rw [disk, made]
    exact mailed.disk

/-- What the handler queue leaves as it is. -/
theorem runNext_leaves (s : Server μ) (w : Nat) : LeavesConnection s (s.runNext lower env name) w := by
  have called : ∀ (s : Server μ) id event, LeavesConnection s (s.appCall lower id event) w := by
    intro s id event
    rw [Server.appCall]
    split <;> exact ⟨rfl, rfl, rfl, rfl, List.prefix_refl _⟩
  rw [Server.runNext]
  split
  · exact ⟨rfl, rfl, rfl, rfl, List.prefix_refl _⟩
  next block queue _ =>
  dsimp only
  split
  · exact ⟨rfl, rfl, rfl, rfl, List.prefix_refl _⟩
  split
  · exact ⟨rfl, rfl, rfl, rfl, List.prefix_refl _⟩
  cases block with
  | opened id => exact ⟨rfl, rfl, rfl, rfl, List.prefix_refl _⟩
  | call id event =>
    have one := called { s with world := s.world.step env .run } id event
    exact ⟨one.web, one.heard, one.snapshots, one.begun, one.made⟩
  | closed id => exact ⟨rfl, rfl, rfl, rfl, List.prefix_refl _⟩

theorem write_leaves (s : Server μ) (w : Nat) : LeavesConnection s s.write w := by
  rw [Server.write]
  split
  · exact ⟨rfl, rfl, rfl, rfl, List.prefix_refl _⟩
  · exact ⟨rfl, rfl, rfl, rfl, List.prefix_append ..⟩

/-- What a step of one web connection leaves of another. -/
private theorem webStep_leaves (s : Server μ) (snapshots : Nat → Nat → Database) {w w' : Nat}
    (label : HTTPConnection.Label) (other : w' ≠ w) (same : snapshots w' = s.snapshots w') :
    LeavesConnection s { s.webStep messages lower w label with snapshots := snapshots } w' :=
  ⟨Function.update_of_ne other .., Function.update_of_ne other .., same, rfl, List.prefix_refl _⟩

/-- A step of a web connection that calls no search. -/
theorem ServerSound.advanced {w : Nat} (sound : ServerSound messages lower name s w)
    (running : s.crashed = false) (w' : Nat) (label : HTTPConnection.Label)
    (snapshots : Nat → Nat → Database) (other : ∀ id, label ≠ .call id)
    (apart : w ≠ w' → snapshots w = s.snapshots w)
    (old : ∀ id < (s.web w').count, snapshots w' id = s.snapshots w' id)
    (found : ∀ now, label = .run now → now.mDb = snapshots w' (s.web w').count ∧
      now.files = s.disk.files)
    (fitsPage : ∀ reply ∈ ((s.webStep messages lower w' label).web w).replies, reply.FitsPage) :
    ServerSound messages lower name { s.webStep messages lower w' label with snapshots := snapshots }
      w := by
  refine ⟨sound.mailed.leaves rfl rfl rfl rfl rfl rfl fun _ => running, ?_⟩
  by_cases same : w = w'
  · subst same
    have advanced : Advanced messages lower s
        { s.webStep messages lower w label with snapshots := snapshots } w label := by
      refine ⟨Function.update_self .., Function.update_self .., old, rfl, rfl, fun now ran => ?_⟩
      obtain ⟨snapshot, files⟩ := found now ran
      exact ⟨snapshot, by rw [files, sound.mailed.disk]⟩
    exact sound.served.advanced advanced other fitsPage
  · exact sound.served.leaves (webStep_leaves s snapshots label same (apart same))

theorem store_ext {left right : Database} (entries : left.entries = right.entries) : left = right := by
  cases left
  cases right
  cases entries
  rfl

theorem sound_step {w : Nat} (sound : ServerSound messages lower name s w) (label : Label)
    (fitsPage : ∀ reply ∈ ((s.step messages lower env name label).web w).replies, reply.FitsPage) :
    ServerSound messages lower name (s.step messages lower env name label) w := by
  unfold Server.step at fitsPage ⊢
  by_cases crashed : s.crashed = true
  · rw [if_pos crashed]
    exact sound
  · have running : s.crashed = false := Bool.eq_false_iff.mpr crashed
    rw [if_neg crashed] at fitsPage ⊢
    have socket : ∀ w' (label : HTTPConnection.Label), (∀ id, label ≠ .call id) →
        (∀ now, label ≠ .run now) →
        (∀ reply ∈ ((s.webStep messages lower w' label).web w).replies, reply.FitsPage) →
        ServerSound messages lower name (s.webStep messages lower w' label) w :=
      fun w' label other quiet fitsPage => sound.advanced running w' label s.snapshots other
        (fun _ => rfl) (fun _ _ => rfl) (fun now ran => absurd ran (quiet now)) fitsPage
    cases label with
    | mail label =>
      have stays : label ≠ .run → ServerSound messages lower name
          { s with world := s.world.step env label } w :=
        fun other => ⟨sound.mailed.mail label other,
          sound.served.leaves ⟨rfl, rfl, rfl, rfl, List.prefix_refl _⟩⟩
      cases label with
      | run =>
        dsimp only
        split
        next idle => exact ⟨sound.mailed.runNext running idle,
          sound.served.leaves (runNext_leaves s w)⟩
        · exact sound
      | accept => exact stays nofun
      | read => exact stays nofun
      | stop => exact stays nofun
      | cleanup => exact stays nofun
      | destroy => exact stays nofun
    | write => exact ⟨sound.mailed.write, sound.served.leaves (write_leaves s w)⟩
    | received w' data => exact socket w' (.received data) nofun nofun fitsPage
    | wrote w' => exact socket w' .wrote nofun nofun fitsPage
    | hangUp w' => exact socket w' .hangUp nofun nofun fitsPage
    | run w' snapshot texts date =>
      refine sound.advanced running w' (.run ⟨s.disk.files, texts, snapshot, date⟩) _ nofun
        (fun other => Function.update_of_ne other ..) (fun id below => ?_) ?_ fitsPage
      · rw [Function.update_self, Function.update_of_ne (Nat.ne_of_lt below)]
      · intro now ran
        rw [← HTTPConnection.Label.run.inj ran, Function.update_self, Function.update_self]
        exact ⟨rfl, rfl⟩
    | begin w' id =>
      dsimp only
      split
      next here =>
        refine ⟨sound.mailed.leaves rfl rfl rfl rfl rfl rfl fun _ => running, ?_⟩
        by_cases same : w = w'
        · subst same
          have snapshot : s.snapshots w id = (Disk.after s.made).mDb := by
            rw [store_ext here.2, sound.mailed.disk]
          exact sound.served.begin here.1 snapshot (Function.update_self ..) rfl rfl rfl rfl
        · exact sound.served.leaves
            ⟨rfl, rfl, rfl, Function.update_of_ne same .., List.prefix_refl _⟩
      · exact sound
    | call w' id =>
      dsimp only at fitsPage ⊢
      split
      next begun =>
        rw [if_pos begun] at fitsPage
        refine ⟨sound.mailed.leaves rfl rfl rfl rfl rfl rfl fun _ => running, ?_⟩
        by_cases same : w = w'
        · subst same
          have missing : handled (s.web w) (.call id) = none := by
            unfold handled
            split <;> rfl
          refine sound.served.call begun (Function.update_self ..) ?_ rfl rfl rfl fitsPage
          show Function.update s.heard w _ w = s.heard w
          rw [missing, Function.update_self]
          rfl
        · exact sound.served.leaves
            (webStep_leaves s s.snapshots (.call id) same rfl)
      · exact sound

end

end Spamass.Site
