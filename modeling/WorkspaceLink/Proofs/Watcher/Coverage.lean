import WorkspaceLink.Proofs.Path.Names
import WorkspaceLink.Proofs.Watcher.Client
import WorkspaceLink.Proofs.Watcher.Subscription
import WorkspaceLink.Watch.OpenWalk

/-! What a watcher covers of a directory. A start subscribes all that lies below the root; when the
creation of a directory is handled, nothing below it is looked at. -/

namespace WorkspaceLink

/-- Whether an event tells that its paths have come into being: they were created, or are the new names
of a rename. -/
def FileEvent.IsCreation (e : FileEvent) : Prop :=
  e.kind = .create ∨ e.kind = .modify (.name .target)

/-- The paths of an event, without those that are no text. -/
def FileEvent.texts (e : FileEvent) : List Path :=
  e.paths.filterMap Text.decode?

theorem FileEvent.IsCreation.operations_eq {e : FileEvent} (h : e.IsCreation) :
    e.operations = e.texts.map (.created, ·) := by
  obtain ⟨kind, paths⟩ := e
  rcases h with h | h <;> obtain rfl : kind = _ := h <;> rfl

namespace WatchState

variable (w : Watcher) (s : WatchState)

def IsSubscribed (dir : Path) : Prop :=
  ∃ q ∈ s.subscribed, Path.same dir q = true

instance (dir : Path) : Decidable (s.IsSubscribed dir) :=
  inferInstanceAs (Decidable (∃ q ∈ s.subscribed, _))

/-- Whether a watcher covers a directory: all directories there that a start would list are subscribed,
and all watched files below it that a walk would come to are open. -/
structure Covers (dir : Path) : Prop where
  directories : ∀ dirs, s.directories? w = some dirs → ∀ q ∈ dirs, q.IsWithin dir → s.IsSubscribed q
  files : ∀ path ∈ s.candidates w, path.IsWithin dir → (s.registry.mask? path).isSome = true →
    s.client.isOpen path = true

variable {w s} in
/-- A start leaves no directory of the workspace without a subscription. -/
theorem isSubscribed_start {sourceFailure : Option Text} {dirs : List Path} {dir : Path}
    (hrun : (s.start w sourceFailure).loop.isRunning = true) (hdirs : s.directories? w = some dirs)
    (hdir : dir ∈ dirs) : (s.start w sourceFailure).IsSubscribed dir := by
  have hall := s.startDirectories_of_running w hrun
  obtain rfl := Option.some.inj (hdirs.symm.trans hall)
  refine ⟨dir, ?_, Path.same_iff.mpr rfl⟩
  rw [start_subscribed]
  exact List.mem_append_right _ hdir

/-- What the creations of paths in turn make of a watcher whose client opens every file. -/
structure Created (paths : List Path) (s' : WatchState) : Prop extends SameWorld s s' where
  unwatchable : s'.unwatchable = s.unwatchable
  failure : s'.client.failure? = s.client.failure?
  subscribed : s'.subscribed = s.subscribed ++ paths.filter (s.subscribes w)
  isOpen : ∀ path, s'.client.isOpen path =
    (s.client.isOpen path || paths.any fun q => Path.same path q && s.opens w .created q)

variable {w s} {s' s'' : WatchState} {paths : List Path}

theorem onCreated_created (h : ∀ q n, s.client.failure? (.open q) n = none) (path : Path) :
    s.Created w [path] (s.onCreated w path) where
  toSameWorld := (onCreated_effect w s path).toSameWorld
  unwatchable := by
    obtain ⟨_, _, heq⟩ := s.onCreated_handled w path
    exact congrArg (·.unwatchable) heq
  failure := by
    obtain ⟨_, _, heq⟩ := s.onCreated_handled w path
    rw [heq]
    exact WatchClient.failure?_sends _ _
  subscribed := by
    have hsubscribed := s.onOperation_subscribed w .created path
    rw [onOperation] at hsubscribed
    rw [hsubscribed]
    cases hsubscribes : s.subscribes w path <;> simp [hsubscribes]
  isOpen p := by
    have hanswer : (s.client.nextFailure? (.open path)).isNone = true := by
      rw [WatchClient.nextFailure?, h]
      rfl
    have hsend : (s.call s.now (.open path)).client.isOpen p =
        (s.client.isOpen p || Path.same p path) := by
      rw [call, WatchClient.isOpen_send_open, hanswer, Bool.and_true]
    rcases onCreated_cases w s path with ⟨ho, _, dirs, heq⟩ | ⟨ho, _, heq⟩ | ⟨ho, _, heq⟩ <;> rw [heq]
    · simp [ho]
    · simp [ho, hsend]
    · have hschedule : ((s.call s.now (.open path)).schedule w path .created).client =
        (s.call s.now (.open path)).client := rfl
      simp [ho, hschedule, hsend]

theorem Created.trans {more : List Path} (h : s.Created w paths s') (h' : s'.Created w more s'') :
    s.Created w (paths ++ more) s'' where
  files := h'.files.trans h.files
  registry := h'.registry.trans h.registry
  loop := h'.loop.trans h.loop
  now := h'.now.trans h.now
  unwatchable := h'.unwatchable.trans h.unwatchable
  failure := h'.failure.trans h.failure
  subscribed := by
    have hsubscribes : s'.subscribes w = s.subscribes w := by
      funext path
      rw [subscribes, subscribes, h.files, h.unwatchable]
    rw [h'.subscribed, h.subscribed, hsubscribes, List.filter_append, List.append_assoc]
  isOpen path := by
    rw [h'.isOpen, h.isOpen, h.opens_eq w, List.any_append, Bool.or_assoc]

theorem foldl_onCreated (h : ∀ q n, s.client.failure? (.open q) n = none) (paths : List Path) :
    s.Created w paths (paths.foldl (onCreated w) s) := by
  induction paths generalizing s with
  | nil =>
    refine ⟨⟨rfl, rfl, rfl, rfl⟩, rfl, rfl, (List.append_nil _).symm, fun path => ?_⟩
    exact (Bool.or_false _).symm
  | cons path paths ih =>
    have hfirst := onCreated_created (w := w) h path
    have hrest := ih (s := s.onCreated w path) fun q n => by rw [hfirst.failure, h]
    exact hfirst.trans hrest

/-! ### Events -/

variable {events : List FileEvent} {dir : Path}

/-- The paths that events tell about together. -/
def brought (events : List FileEvent) : List Path :=
  events.flatMap FileEvent.texts

theorem foldl_onEvent (w : Watcher) (s : WatchState) (he : ∀ e ∈ events, e.IsCreation) :
    events.foldl (fun s e => s.onEvent w e) s = (brought events).foldl (onCreated w) s := by
  induction events generalizing s with
  | nil => rfl
  | cons e events ih =>
    obtain ⟨he, hrest⟩ := List.forall_mem_cons.mp he
    have hevent : s.onEvent w e = e.texts.foldl (onCreated w) s := by
      rw [onEvent, he.operations_eq, List.foldl_map]
      rfl
    have hbrought : brought (e :: events) = e.texts ++ brought events := List.flatMap_cons
    rw [List.foldl_cons, hevent, ih _ hrest, hbrought, List.foldl_append]

theorem deliver_created (hrun : s.loop.isRunning = true)
    (hopens : ∀ q n, s.client.failure? (.open q) n = none) (he : ∀ e ∈ events, e.IsCreation) :
    s.Created w (brought events) (s.deliver w events) := by
  have hcreated := foldl_onCreated (w := w) hopens (brought events)
  rw [deliver, if_pos hrun, foldl_onEvent w s he, advance_eq]
  -- the reports that are due at once leave the open files and the subscriptions as they are
  exact { hcreated with
    now := (Nat.add_zero _).trans hcreated.now }

/-- After events that bring a directory, the watcher covers it exactly if everything below it was
covered before or is brought by the same events. -/
theorem covers_deliver_iff (hrun : s.loop.isRunning = true)
    (hopens : ∀ q n, s.client.failure? (.open q) n = none) (he : ∀ e ∈ events, e.IsCreation)
    (hdir : dir ∈ brought events) (hsubscribes : s.subscribes w dir = true) :
    (s.deliver w events).Covers w dir ↔
      (∀ dirs, s.directories? w = some dirs → ∀ q ∈ dirs, q.IsWithin dir → Path.same q dir = false →
        s.IsSubscribed q ∨ ∃ p ∈ brought events, Path.same q p = true ∧ s.subscribes w p = true) ∧
      ∀ path ∈ s.candidates w, path.IsWithin dir → (s.registry.mask? path).isSome = true →
        s.client.isOpen path = true ∨
          ∃ p ∈ brought events, Path.same path p = true ∧ s.opens w .created p = true := by
  have hcreated := deliver_created (w := w) hrun hopens he
  have hdirectories : (s.deliver w events).directories? w = s.directories? w := by
    rw [directories?, directories?, hcreated.files]
  have hcandidates : (s.deliver w events).candidates w = s.candidates w := by
    rw [candidates, candidates, hcreated.files]
  have hsubscribed (q : Path) : (s.deliver w events).IsSubscribed q ↔
      s.IsSubscribed q ∨ ∃ p ∈ brought events, Path.same q p = true ∧ s.subscribes w p = true := by
    simp only [IsSubscribed, hcreated.subscribed, List.mem_append, List.mem_filter, or_and_right,
      exists_or, and_assoc]
    exact or_congr Iff.rfl (exists_congr fun p => and_congr_right fun _ => and_comm)
  have hopen (path : Path) : (s.deliver w events).client.isOpen path = true ↔
      s.client.isOpen path = true ∨
        ∃ p ∈ brought events, Path.same path p = true ∧ s.opens w .created p = true := by
    simp [hcreated.isOpen]
  constructor
  · rintro ⟨hdirs, hfiles⟩
    rw [hdirectories] at hdirs
    rw [hcandidates, hcreated.registry] at hfiles
    refine ⟨fun dirs hdirs' q hq hwithin _ => ?_, fun path hpath hwithin hwatched => ?_⟩
    · exact (hsubscribed q).mp (hdirs dirs hdirs' q hq hwithin)
    · exact (hopen path).mp (hfiles path hpath hwithin hwatched)
  · rintro ⟨hdirs, hfiles⟩
    constructor
    · rw [hdirectories]
      intro dirs hdirs' q hq hwithin
      rw [hsubscribed]
      cases hsame : Path.same q dir with
      | true => exact .inr ⟨dir, hdir, hsame, hsubscribes⟩
      | false => exact hdirs dirs hdirs' q hq hwithin hsame
    · rw [hcandidates, hcreated.registry]
      intro path hpath hwithin hwatched
      exact (hopen path).mpr (hfiles path hpath hwithin hwatched)

/-- The watcher of a workspace in which nothing is excluded but by the default settings. -/
def packageWatcher : Watcher :=
  ⟨"/ws", .ofSettings ⟨.dir [("ws", .dir [])]⟩ "/ws" .default, .default⟩

/-- The workspace when it has been watched for a while, and a directory has just come into being with
another one in it, which holds a file. -/
def newPackage : WatchState :=
  let s := ({ files := ⟨.dir [("ws", .dir [])]⟩ } : WatchState).start packageWatcher none
  { s with
    files := ⟨.dir [("ws", .dir [("pkg", .dir [("inner", .dir [("a.go", .file .empty)])])])]⟩ }

/-- An event that tells that paths were created. -/
def creation (paths : List Text) : FileEvent :=
  ⟨.create, paths.map Text.utf8⟩

/-- Events that name all that is new leave nothing uncovered. -/
theorem newPackage_covered :
    let events := [creation ["/ws/pkg"], creation ["/ws/pkg/inner", "/ws/pkg/inner/a.go"]]
    newPackage.loop.isRunning = true ∧ (∀ q n, newPackage.client.failure? (.open q) n = none) ∧
      (∀ e ∈ events, e.IsCreation) ∧ ("/ws/pkg" : Path) ∈ brought events ∧
      newPackage.subscribes packageWatcher "/ws/pkg" = true ∧
      (newPackage.deliver packageWatcher events).Covers packageWatcher "/ws/pkg" := by
  intro events
  have hrun : newPackage.loop.isRunning = true := by decide +kernel
  have hopens : ∀ q n, newPackage.client.failure? (.open q) n = none := fun _ _ => rfl
  have he : ∀ e ∈ events, e.IsCreation :=
    List.forall_mem_cons.mpr ⟨.inl rfl, List.forall_mem_singleton.mpr (.inl rfl)⟩
  have hdir : ("/ws/pkg" : Path) ∈ brought events := by decide +kernel
  have hsubscribes : newPackage.subscribes packageWatcher "/ws/pkg" = true := by decide +kernel
  refine ⟨hrun, hopens, he, hdir, hsubscribes, ?_⟩
  refine (covers_deliver_iff hrun hopens he hdir hsubscribes).mpr ⟨?_, ?_⟩
  · let listed : List Path := ["/ws", "/ws/pkg", "/ws/pkg/inner"]
    have hlisted : newPackage.directories? packageWatcher = some listed := by decide +kernel
    intro dirs hdirs
    obtain rfl : listed = dirs := Option.some.inj (hlisted.symm.trans hdirs)
    decide +kernel
  · decide +kernel

/-- An event that names the new directory alone leaves uncovered what is in it. -/
theorem newPackage_uncovered :
    ¬(newPackage.deliver packageWatcher [creation ["/ws/pkg"]]).IsSubscribed "/ws/pkg/inner" ∧
      (newPackage.deliver packageWatcher [creation ["/ws/pkg"]]).client.isOpen
        "/ws/pkg/inner/a.go" = false ∧
      ¬(newPackage.deliver packageWatcher [creation ["/ws/pkg"]]).Covers packageWatcher
        "/ws/pkg" := by
  have hopen : (newPackage.deliver packageWatcher [creation ["/ws/pkg"]]).client.isOpen
      "/ws/pkg/inner/a.go" = false := by decide +kernel
  refine ⟨by decide +kernel, hopen, fun hcovers => ?_⟩
  have hfile := hcovers.files "/ws/pkg/inner/a.go" (by decide +kernel) (by decide +kernel)
    (by decide +kernel)
  rw [hopen] at hfile
  cases hfile

end WatchState

end WorkspaceLink
