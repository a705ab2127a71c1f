import PuppyTalk.Common
import PuppyTalk.KeyValue
import PuppyTalk.Run

namespace PuppyTalk.Fanout

/-- `CHAT_DM_FANOUT_CHANNEL` and `NOTIF_SSE_FANOUT_CHANNEL`, each with the manager that handles it. -/
inductive Channel where
  | chat
  | notif
  deriving DecidableEq, Repr

/-- What `_fanout_dm` and `publish_after_commit` deliver. The sender of a direct message is never its
peer: `assert_can_dm` has passed. -/
inductive Event where
  | dm (peerId senderId : Uuid) (wire : String) (other : peerId ≠ senderId)
  | notification (recipientUserId : Uuid) (payload : String)

namespace Event

def channel : Event → Channel
  | dm .. => .chat
  | notification .. => .notif

def targetUserIds : Event → List Uuid
  | dm peerId senderId _ _ => [peerId, senderId]
  | notification recipientUserId _ => [recipientUserId]

def payload : Event → String
  | dm _ _ wire _ => wire
  | notification _ payload => payload

theorem nodup_targetUserIds (e : Event) : e.targetUserIds.Nodup := by
  cases e with
  | dm peerId senderId wire other => simpa [targetUserIds] using other
  | notification => exact List.nodup_singleton _

end Event

structure Envelope where
  origin : String
  targetUserIds : List Uuid
  payload : String
  deriving DecidableEq, Repr

structure Config (ι Raw : Type) where
  instanceId : ι → String
  distinct : Function.Injective instanceId
  dumps : Envelope → Raw
  loads : Raw → Option Envelope
  loads_dumps : ∀ e, loads (dumps e) = some e
  /-- `REALTIME_MAX_CONNECTIONS_PER_USER`. -/
  maxConnectionsPerUser : Nat

structure Conn (ι : Type) where
  home : ι
  channel : Channel
  userId : Uuid
  deriving DecidableEq, Repr

structure Message (ι : Type) where
  origin : ι
  event : Event

/-- The work in flight. A message is known by its place among all messages. -/
inductive Task (ι Raw : Type) where
  /-- A call of a manager that has not looked up the connections yet. -/
  | call (channel : Channel) (i : ι) (m : Nat) (userId : Uuid) (payload : String)
  /-- The sends of `send_personal_message`, and the sockets that failed and are to be dropped. -/
  | sends (i : ι) (m : Nat) (userId : Uuid) (payload : String) (left dropping : List Nat)
  | publish (m : Nat)
  /-- An envelope on its way to the listener of an instance. -/
  | envelope (i : ι) (m : Nat) (channel : Channel) (data : Raw)
  /-- The loop of `_dispatch_message` over the users that are left. -/
  | dispatch (i : ι) (m : Nat) (channel : Channel) (payload : String) (targetUserIds : List Uuid)
  deriving DecidableEq

/-- The registered connections, all connections so far, what each of them has received, the items
that an SSE stream has not read yet, all messages so far, and the work in flight. -/
structure State (ι Raw : Type) where
  byUser : ι → Channel → Uuid → List Nat
  opened : List (Conn ι)
  inbox : Nat → List (Nat × String)
  unread : Nat → Nat
  sent : List (Message ι)
  tasks : List (Task ι Raw)

def State.init : State ι Raw where
  byUser _ _ _ := []
  opened := []
  inbox _ := []
  unread _ := 0
  sent := []
  tasks := []

def queueMaxSize : Nat := 100

inductive Choice (ι : Type) where
  | go
  | send (x : Nat) (reply : Reply)
  | drop (x : Nat)
  /-- The reply of Redis and the subscribers that it reaches. -/
  | publish (reply : Reply) (subscribers : List ι)
  | lose

inductive Label (ι Raw : Type) where
  | connect (i : ι) (channel : Channel) (userId : Uuid)
  | disconnect (i : ι) (channel : Channel) (userId : Uuid) (x : Nat)
  /-- An SSE stream reads an item of its queue. -/
  | read (x : Nat)
  | fanout (i : ι) (event : Event)
  | run (task : Task ι Raw) (choice : Choice ι)

section Step

variable {ι Raw : Type} [DecidableEq ι]

def State.setBucket (s : State ι Raw) (i : ι) (channel : Channel) (userId : Uuid)
    (bucket : List Nat) : State ι Raw :=
  { s with byUser := fun i' channel' userId' =>
      if i' = i ∧ channel' = channel ∧ userId' = userId then bucket
      else s.byUser i' channel' userId' }

/-- `connect` of the chat and `register` of the SSE streams. -/
def State.connect (c : Config ι Raw) (s : State ι Raw) (i : ι) (channel : Channel) (userId : Uuid) :
    State ι Raw :=
  let bucket := s.byUser i channel userId
  if c.maxConnectionsPerUser ≤ bucket.length then s
  else
    { s.setBucket i channel userId (s.opened.length :: bucket) with
      opened := s.opened ++ [⟨i, channel, userId⟩] }

/-- `disconnect` and `unregister`. -/
def State.disconnect (s : State ι Raw) (i : ι) (channel : Channel) (userId : Uuid) (x : Nat) :
    State ι Raw :=
  s.setBucket i channel userId ((s.byUser i channel userId).erase x)

def State.receive (s : State ι Raw) (x m : Nat) (payload : String) : State ι Raw :=
  { s with inbox := Function.update s.inbox x (s.inbox x ++ [(m, payload)]) }

/-- `deliver`: every queue that is not full takes the item. -/
def State.deliver (s : State ι Raw) (m : Nat) (payload : String) (queues : List Nat) : State ι Raw :=
  { s with
    inbox := fun x => if x ∈ queues ∧ s.unread x < queueMaxSize then s.inbox x ++ [(m, payload)]
      else s.inbox x
    unread := fun x => if x ∈ queues ∧ s.unread x < queueMaxSize then s.unread x + 1
      else s.unread x }

def Task.callsAt (i : ι) (m : Nat) : Task ι Raw → Bool
  | .call _ i' m' _ _ => decide (i' = i ∧ m' = m)
  | .sends i' m' _ _ _ _ => decide (i' = i ∧ m' = m)
  | _ => false

def Task.dispatchesAt (i : ι) : Task ι Raw → Bool
  | .dispatch i' _ _ _ _ => decide (i' = i)
  | _ => false

/-- `publish_user_envelope`: the envelopes that leave. -/
def publishUserEnvelope (c : Config ι Raw) (m : Nat) (msg : Message ι) (reply : Reply)
    (subscribers : List ι) : List (Task ι Raw) :=
  if msg.event.payload = "" ∨ reply.took = false then []
  else
    let data := c.dumps
      { origin := c.instanceId msg.origin
        targetUserIds := msg.event.targetUserIds
        payload := msg.event.payload }
    subscribers.map fun i => .envelope i m msg.event.channel data

/-- `_dispatch_message`: the envelopes of the instance itself are skipped. -/
def dispatchMessage (c : Config ι Raw) (i : ι) (m : Nat) (channel : Channel) (data : Raw) :
    List (Task ι Raw) :=
  match c.loads data with
  | none => []
  | some env =>
    if env.origin = c.instanceId i then []
    else [.dispatch i m channel env.payload env.targetUserIds]

def perform (c : Config ι Raw) (s : State ι Raw) :
    Task ι Raw → Choice ι → Option (List (Task ι Raw) × State ι Raw)
  | .call .chat i m userId payload, .go =>
    some ([.sends i m userId payload (s.byUser i .chat userId) []], s)
  | .call .notif i m userId payload, .go =>
    some ([], s.deliver m payload (s.byUser i .notif userId))
  | .sends i m userId payload left dropping, .send x reply =>
    if x ∈ left then
      some ([.sends i m userId payload (left.erase x) (if reply.failed then x :: dropping else dropping)],
        if reply.took then s.receive x m payload else s)
    else none
  | .sends i m userId payload left dropping, .drop x =>
    if x ∈ dropping then
      some ([.sends i m userId payload left (dropping.erase x)], s.disconnect i .chat userId x)
    else none
  | .sends _ _ _ _ left dropping, .go =>
    if left = [] ∧ dropping = [] then some ([], s) else none
  | .publish m, .publish reply subscribers =>
    (s.sent[m]?).bind fun msg =>
      -- a notification is published after its own delivery, a direct message beside it
      if msg.event.channel = .notif ∧ s.tasks.any (Task.callsAt msg.origin m) ∨ ¬ subscribers.Nodup then
        none
      else some (publishUserEnvelope c m msg reply subscribers, s)
  | .envelope _ _ _ _, .lose => some ([], s)
  | .envelope i m channel data, .go =>
    if s.tasks.any (Task.dispatchesAt i) then none else some (dispatchMessage c i m channel data, s)
  | .dispatch i m channel payload targets, .go =>
    if s.tasks.any (Task.callsAt i m) then none
    else
      match targets with
      | [] => some ([], s)
      | userId :: targets =>
        some ([.call channel i m userId payload, .dispatch i m channel payload targets], s)
  | _, _ => none

variable [DecidableEq Raw]

def step (c : Config ι Raw) (s : State ι Raw) : Label ι Raw → Option (State ι Raw)
  | .connect i channel userId => some (s.connect c i channel userId)
  | .disconnect i channel userId x => some (s.disconnect i channel userId x)
  | .read x =>
    if s.unread x = 0 then none
    else some { s with unread := Function.update s.unread x (s.unread x - 1) }
  | .fanout i event =>
    let m := s.sent.length
    some { s with
      sent := s.sent ++ [⟨i, event⟩]
      tasks := event.targetUserIds.map (fun u => .call event.channel i m u event.payload) ++
        .publish m :: s.tasks }
  | .run task choice =>
    if task ∈ s.tasks then
      (perform c { s with tasks := s.tasks.erase task } task choice).map fun (tasks, s) =>
        { s with tasks := tasks ++ s.tasks }
    else none

end Step

section Performs

variable {ι Raw : Type} [DecidableEq ι] {c : Config ι Raw} {s s' : State ι Raw} {t : Task ι Raw}
variable {ts : List (Task ι Raw)}

inductive Performs (c : Config ι Raw) (s : State ι Raw) :
    Task ι Raw → List (Task ι Raw) → State ι Raw → Prop where
  | chat : Performs c s (.call .chat i m u p) [.sends i m u p (s.byUser i .chat u) []] s
  | notif : Performs c s (.call .notif i m u p) [] (s.deliver m p (s.byUser i .notif u))
  | send {i : ι} {m : Nat} {u : Uuid} {p : String} {left dropping : List Nat} {x : Nat}
      (reply : Reply) (hx : x ∈ left) : Performs c s (.sends i m u p left dropping)
      [.sends i m u p (left.erase x) (if reply.failed then x :: dropping else dropping)]
      (if reply.took then s.receive x m p else s)
  | drop {i : ι} {m : Nat} {u : Uuid} {p : String} {left dropping : List Nat} {x : Nat}
      (hx : x ∈ dropping) : Performs c s (.sends i m u p left dropping)
      [.sends i m u p left (dropping.erase x)] (s.disconnect i .chat u x)
  | finish : Performs c s (.sends i m u p [] []) [] s
  | publish {m : Nat} {msg : Message ι} {subscribers : List ι} (reply : Reply)
      (hm : s.sent[m]? = some msg) (hnodup : subscribers.Nodup) :
      Performs c s (.publish m) (publishUserEnvelope c m msg reply subscribers) s
  | lose : Performs c s (.envelope i m channel data) [] s
  | receive : Performs c s (.envelope i m channel data) (dispatchMessage c i m channel data) s
  | next : Performs c s (.dispatch i m channel p (u :: targets))
      [.call channel i m u p, .dispatch i m channel p targets] s
  | done : Performs c s (.dispatch i m channel p []) [] s

theorem perform_some (h : perform c s t choice = some (ts, s')) : Performs c s t ts s' := by
  unfold perform at h
  split at h
  · cases h
    exact .chat
  · cases h
    exact .notif
  · split at h
    · rename_i hx
      cases h
      exact .send _ hx
    · cases h
  · split at h
    · rename_i hx
      cases h
      exact .drop hx
    · cases h
  · split at h
    · rename_i hnil
      obtain ⟨rfl, rfl⟩ := hnil
      cases h
      exact .finish
    · cases h
  · obtain ⟨msg, hm, h⟩ := Option.bind_eq_some_iff.mp h
    split at h
    · cases h
    · rename_i hnodup
      cases h
      exact .publish _ hm (not_not.mp fun hn => hnodup (.inr hn))
  · cases h
    exact .lose
  · split at h
    · cases h
    · cases h
      exact .receive
  · split at h
    · cases h
    · split at h
      · cases h
        exact .done
      · cases h
        exact .next
  · cases h

theorem Performs.frame (h : Performs c s t ts s') :
    s'.opened = s.opened ∧ s'.sent = s.sent ∧ s'.tasks = s.tasks := by
  cases h with
  | send reply => split <;> exact ⟨rfl, rfl, rfl⟩
  | _ => exact ⟨rfl, rfl, rfl⟩

end Performs

section Safety

variable {ι Raw : Type} [DecidableEq ι] {c : Config ι Raw} {s s' : State ι Raw}

def got (s : State ι Raw) (m x : Nat) : Nat := (s.inbox x).countP fun e => decide (e.1 = m)

def chances (m : Nat) (msg : Message ι) (x : Nat) (conn : Conn ι) : Task ι Raw → Nat
  | .call channel i m' u _ => if m' = m ∧ conn = ⟨i, channel, u⟩ then 1 else 0
  | .sends _ m' _ _ left _ => if m' = m then left.count x else 0
  | .publish m' =>
    if m' = m ∧ conn.channel = msg.event.channel ∧ conn.home ≠ msg.origin then
      msg.event.targetUserIds.count conn.userId
    else 0
  | .envelope i m' channel _ =>
    if m' = m ∧ conn.home = i ∧ conn.channel = channel ∧ i ≠ msg.origin then
      msg.event.targetUserIds.count conn.userId
    else 0
  | .dispatch i m' channel _ targets =>
    if m' = m ∧ conn.home = i ∧ conn.channel = channel then targets.count conn.userId else 0

/-- A connection of a target user may receive a message once, any other connection never. -/
def allowance (msg : Message ι) (conn : Conn ι) : Nat :=
  if conn.channel = msg.event.channel then msg.event.targetUserIds.count conn.userId else 0

def Could (s : State ι Raw) (x : Nat) (conn : Conn ι) : Prop :=
  s.opened[x]? = none ∨ s.opened[x]? = some conn

def TaskOk (c : Config ι Raw) (s : State ι Raw) : Task ι Raw → Prop
  | .call channel _ m _ p => ∃ msg, s.sent[m]? = some msg ∧ channel = msg.event.channel ∧
    p = msg.event.payload
  | .sends i m u p left _ => ∃ msg, s.sent[m]? = some msg ∧ msg.event.channel = .chat ∧
    p = msg.event.payload ∧ ∀ x ∈ left, s.opened[x]? = some ⟨i, .chat, u⟩
  | .publish m => ∃ msg, s.sent[m]? = some msg
  | .envelope _ m channel data => ∃ msg, s.sent[m]? = some msg ∧ channel = msg.event.channel ∧
    data = c.dumps ⟨c.instanceId msg.origin, msg.event.targetUserIds, msg.event.payload⟩
  | .dispatch i m channel p _ => ∃ msg, s.sent[m]? = some msg ∧ channel = msg.event.channel ∧
    p = msg.event.payload ∧ i ≠ msg.origin

structure Inv (c : Config ι Raw) (s : State ι Raw) : Prop where
  tasks : ∀ t ∈ s.tasks, TaskOk c s t
  nodup : ∀ i channel u, (s.byUser i channel u).Nodup
  registered : ∀ i channel u, ∀ x ∈ s.byUser i channel u, s.opened[x]? = some ⟨i, channel, u⟩
  received : ∀ x m p, (m, p) ∈ s.inbox x → ∃ msg, s.sent[m]? = some msg ∧ p = msg.event.payload
  budget : ∀ m msg, s.sent[m]? = some msg → ∀ x conn, Could s x conn →
    got s m x + (s.tasks.map (chances m msg x conn)).sum ≤ allowance msg conn

omit [DecidableEq ι] in
theorem TaskOk.mono {t : Task ι Raw} (h : TaskOk c s t)
    (hs : ∀ (m : Nat) msg, s.sent[m]? = some msg → s'.sent[m]? = some msg)
    (ho : ∀ (x : Nat) conn, s.opened[x]? = some conn → s'.opened[x]? = some conn) :
    TaskOk c s' t := by
  cases t with
  | sends i m u p left dropping =>
    obtain ⟨msg, hm, hch, hp, hleft⟩ := h
    exact ⟨msg, hs m msg hm, hch, hp, fun x hx => ho x _ (hleft x hx)⟩
  | publish m =>
    obtain ⟨msg, hm⟩ := h
    exact ⟨msg, hs m msg hm⟩
  | _ =>
    obtain ⟨msg, hm, h⟩ := h
    exact ⟨msg, hs _ msg hm, h⟩

theorem Inv.count_bucket (h : Inv c s) (hx : Could s x conn) (i : ι) (channel : Channel) (u : Uuid) :
    (s.byUser i channel u).count x ≤ if conn = ⟨i, channel, u⟩ then 1 else 0 := by
  by_cases hmem : x ∈ s.byUser i channel u
  · have hopened := h.registered i channel u x hmem
    have hconn : conn = ⟨i, channel, u⟩ := by
      rcases hx with hx | hx
      · rw [hopened] at hx
        cases hx
      · exact Option.some.inj (hx.symm.trans hopened)
    rw [if_pos hconn]
    exact List.nodup_iff_count_le_one.mp (h.nodup i channel u) x
  · rw [List.count_eq_zero_of_not_mem hmem]
    exact Nat.zero_le _

omit [DecidableEq ι] in
theorem got_receive (s : State ι Raw) (x m : Nat) (p : String) (m' x' : Nat) :
    got (s.receive x m p) m' x' = got s m' x' + if m = m' ∧ x = x' then 1 else 0 := by
  unfold got State.receive
  by_cases hx : x = x'
  · subst hx
    simp [Function.update_self, List.countP_append, List.countP_singleton]
  · simp [Function.update_of_ne (Ne.symm hx), hx]

omit [DecidableEq ι] in
theorem got_deliver (s : State ι Raw) (m : Nat) (p : String) (queues : List Nat) (m' x : Nat) :
    got (s.deliver m p queues) m' x ≤ got s m' x + if m = m' then queues.count x else 0 := by
  unfold got State.deliver
  dsimp only
  split
  · rename_i hx
    have hpos := List.count_pos_iff.mpr hx.1
    rw [List.countP_append, List.countP_singleton]
    simp only [decide_eq_true_eq]
    split <;> omega
  · exact Nat.le_add_right _ _

omit [DecidableEq ι] in
theorem sum_le_single {l : List ι} (h : l.Nodup) {f : ι → Nat} (a : ι) (hf : ∀ i, i ≠ a → f i = 0) :
    (l.map f).sum ≤ f a := by
  classical
  rw [List.sum_map_eq_nsmul_single a f fun i hi _ => hf i hi, smul_eq_mul]
  calc l.count a * f a
    _ ≤ 1 * f a := Nat.mul_le_mul_right _ (List.nodup_iff_count_le_one.mp h a)
    _ = f a := Nat.one_mul _

theorem chances_publish (c : Config ι Raw) (m : Nat) (msg : Message ι) (reply : Reply)
    {subscribers : List ι} (h : subscribers.Nodup) (m' x : Nat) (msg' : Message ι) (conn : Conn ι)
    (hm : m = m' → msg = msg') :
    ((publishUserEnvelope c m msg reply subscribers).map (chances m' msg' x conn)).sum ≤
      chances m' msg' x conn (.publish m : Task ι Raw) := by
  unfold publishUserEnvelope
  split
  · exact Nat.zero_le _
  · rw [List.map_map]
    refine Nat.le_trans (sum_le_single h conn.home fun i hi => ?_) ?_
    · exact if_neg fun hc => hi hc.2.1.symm
    · simp only [Function.comp_apply, chances, true_and]
      split
      · rename_i hc
        have heq := hm hc.1
        subst heq
        rw [if_pos hc]
      · exact Nat.zero_le _

omit [DecidableEq ι] in
theorem dispatchMessage_ok (h : TaskOk c s (.envelope i m channel data)) :
    ∀ t ∈ dispatchMessage c i m channel data, TaskOk c s t := by
  obtain ⟨msg, hm, hch, rfl⟩ := h
  unfold dispatchMessage
  rw [c.loads_dumps]
  dsimp only
  split
  · exact List.forall_mem_nil _
  · rename_i horigin
    refine List.forall_mem_singleton.mpr ⟨msg, hm, hch, rfl, ?_⟩
    rintro rfl
    exact horigin rfl

theorem chances_receive (h : TaskOk c s (.envelope i m channel data)) (hm' : s.sent[m']? = some msg')
    (x : Nat) (conn : Conn ι) :
    ((dispatchMessage c i m channel data).map (chances m' msg' x conn)).sum ≤
      chances m' msg' x conn (.envelope i m channel data) := by
  obtain ⟨msg, hm, hch, rfl⟩ := h
  unfold dispatchMessage
  rw [c.loads_dumps]
  dsimp only
  split
  · exact Nat.zero_le _
  · rename_i horigin
    simp only [List.map_cons, List.map_nil, List.sum_singleton, chances]
    split
    · rename_i hc
      obtain ⟨rfl, hhome, hchannel⟩ := hc
      have hmsg : msg = msg' := Option.some.inj (hm.symm.trans hm')
      subst hmsg
      have hne : i ≠ msg.origin := by
        rintro rfl
        exact horigin rfl
      rw [if_pos ⟨rfl, hhome, hchannel, hne⟩]
    · exact Nat.zero_le _

theorem chances_next (m' : Nat) (msg : Message ι) (x : Nat) (conn : Conn ι) (i : ι) (m : Nat)
    (channel : Channel) (p : String) (u : Uuid) (targets : List Uuid) :
    chances m' msg x conn (.call channel i m u p : Task ι Raw) +
      chances m' msg x conn (.dispatch i m channel p targets : Task ι Raw) ≤
      chances m' msg x conn (.dispatch i m channel p (u :: targets) : Task ι Raw) := by
  obtain ⟨home, channel', userId⟩ := conn
  simp only [chances, List.count_cons, Conn.mk.injEq, beq_iff_eq]
  by_cases hc : m = m' ∧ home = i ∧ channel' = channel
  · obtain ⟨rfl, rfl, rfl⟩ := hc
    simp only [and_self, if_true, true_and, eq_comm (a := userId)]
    omega
  · rw [if_neg hc, if_neg hc, if_neg fun h => hc ⟨h.1, h.2.1, h.2.2.1⟩]

theorem received_receive (h : Inv c s) (hmsg : s.sent[m]? = some msg) (x : Nat) :
    ∀ x' m' p, (m', p) ∈ (s.receive x m msg.event.payload).inbox x' →
      ∃ msg, s.sent[m']? = some msg ∧ p = msg.event.payload := by
  intro x' m' p hp
  by_cases hx : x' = x
  · subst hx
    simp only [State.receive, Function.update_self, List.mem_append, List.mem_singleton,
      Prod.mk.injEq] at hp
    rcases hp with hp | ⟨rfl, rfl⟩
    · exact h.received x' m' p hp
    · exact ⟨msg, hmsg, rfl⟩
  · simp only [State.receive, Function.update_of_ne hx] at hp
    exact h.received x' m' p hp

theorem received_deliver (h : Inv c s) (hmsg : s.sent[m]? = some msg) (queues : List Nat) :
    ∀ x m' p, (m', p) ∈ (s.deliver m msg.event.payload queues).inbox x →
      ∃ msg, s.sent[m']? = some msg ∧ p = msg.event.payload := by
  intro x m' p hp
  simp only [State.deliver] at hp
  split at hp
  · simp only [List.mem_append, List.mem_singleton, Prod.mk.injEq] at hp
    rcases hp with hp | ⟨rfl, rfl⟩
    · exact h.received x m' p hp
    · exact ⟨msg, hmsg, rfl⟩
  · exact h.received x m' p hp

theorem Inv.connections (h : Inv c s) (hs : s'.sent = s.sent) (ht : s'.tasks = s.tasks)
    (hinbox : s'.inbox = s.inbox)
    (ho : ∀ (x : Nat) conn, s.opened[x]? = some conn → s'.opened[x]? = some conn)
    (hnodup : ∀ i channel u, (s'.byUser i channel u).Nodup)
    (hreg : ∀ i channel u, ∀ x ∈ s'.byUser i channel u, s'.opened[x]? = some ⟨i, channel, u⟩) :
    Inv c s' where
  tasks t htask := (h.tasks t (ht ▸ htask)).mono (fun m msg hm => hs ▸ hm) ho
  nodup := hnodup
  registered := hreg
  received x m p hp := hs ▸ h.received x m p (hinbox ▸ hp)
  budget m msg hm x conn hx := by
    have hcould : Could s x conn := by
      cases hopened : s.opened[x]? with
      | none => exact .inl hopened
      | some conn' =>
        rcases hx with hx | hx
        · rw [ho x conn' hopened] at hx
          cases hx
        · rw [ho x conn' hopened] at hx
          cases hx
          exact .inr hopened
    have hbudget := h.budget m msg (hs ▸ hm) x conn hcould
    unfold got at hbudget ⊢
    rw [hinbox, ht]
    exact hbudget

theorem Inv.connect (h : Inv c s) (i : ι) (channel : Channel) (u : Uuid) :
    Inv c (s.connect c i channel u) := by
  unfold State.connect
  dsimp only
  split
  · exact h
  · have hfresh (i' : ι) (ch' : Channel) (u' : Uuid) : s.opened.length ∉ s.byUser i' ch' u' := by
      intro hmem
      have hx := h.registered i' ch' u' _ hmem
      rw [List.getElem?_eq_none (Nat.le_refl _)] at hx
      cases hx
    have hold (x : Nat) (conn : Conn ι) (hx : s.opened[x]? = some conn) :
        (s.opened ++ [⟨i, channel, u⟩])[x]? = some conn := by
      rw [List.getElem?_append_left (List.getElem?_eq_some_iff.mp hx).1]
      exact hx
    refine h.connections rfl rfl rfl hold (fun i' ch' u' => ?_) fun i' ch' u' x hx => ?_
    · show (if _ then _ else _ : List Nat).Nodup
      split
      · exact List.nodup_cons.mpr ⟨hfresh _ _ _, h.nodup _ _ _⟩
      · exact h.nodup _ _ _
    · replace hx : x ∈ if i' = i ∧ ch' = channel ∧ u' = u then
          s.opened.length :: s.byUser i channel u else s.byUser i' ch' u' := hx
      split at hx
      · rename_i heq
        obtain ⟨rfl, rfl, rfl⟩ := heq
        rcases List.mem_cons.mp hx with rfl | hx
        · exact List.getElem?_concat_length
        · exact hold x _ (h.registered _ _ _ x hx)
      · exact hold x _ (h.registered _ _ _ x hx)

theorem Inv.disconnect (h : Inv c s) (i : ι) (channel : Channel) (u : Uuid) (x : Nat) :
    Inv c (s.disconnect i channel u x) := by
  have hsub (i' : ι) (ch' : Channel) (u' : Uuid) :
      ((s.disconnect i channel u x).byUser i' ch' u').Sublist (s.byUser i' ch' u') := by
    show (if _ then _ else _ : List Nat).Sublist _
    split
    · rename_i heq
      obtain ⟨rfl, rfl, rfl⟩ := heq
      exact List.erase_sublist
    · exact .refl _
  exact h.connections rfl rfl rfl (fun _ _ hx => hx)
    (fun i' ch' u' => (h.nodup i' ch' u').sublist (hsub i' ch' u'))
    fun i' ch' u' x' hx => h.registered i' ch' u' x' ((hsub i' ch' u').subset hx)

theorem chances_unsent {t : Task ι Raw} (h : TaskOk c s t) (hm : s.sent[m]? = none) (msg : Message ι)
    (x : Nat) (conn : Conn ι) : chances m msg x conn t = 0 := by
  have hne {m' : Nat} {msg' : Message ι} (hm' : s.sent[m']? = some msg') : m' ≠ m := by
    rintro rfl
    rw [hm] at hm'
    cases hm'
  cases t with
  | call =>
    obtain ⟨msg', hm', _⟩ := h
    exact if_neg fun hc => hne hm' hc.1
  | sends =>
    obtain ⟨msg', hm', _⟩ := h
    exact if_neg (hne hm')
  | publish =>
    obtain ⟨msg', hm'⟩ := h
    exact if_neg fun hc => hne hm' hc.1
  | envelope =>
    obtain ⟨msg', hm', _⟩ := h
    exact if_neg fun hc => hne hm' hc.1
  | dispatch =>
    obtain ⟨msg', hm', _⟩ := h
    exact if_neg fun hc => hne hm' hc.1

theorem chances_calls (m : Nat) (msg : Message ι) (x : Nat) (conn : Conn ι) (channel : Channel) (i : ι)
    (m' : Nat) (targets : List Uuid) (p : String) :
    ((targets.map fun u => (.call channel i m' u p : Task ι Raw)).map (chances m msg x conn)).sum =
      if m' = m ∧ conn.home = i ∧ conn.channel = channel then targets.count conn.userId else 0 := by
  obtain ⟨home, channel', userId⟩ := conn
  induction targets with
  | nil => simp
  | cons u targets ih =>
    simp only [List.map_cons, List.sum_cons, ih, chances, Conn.mk.injEq, List.count_cons, beq_iff_eq]
    by_cases hc : m' = m ∧ home = i ∧ channel' = channel
    · obtain ⟨rfl, rfl, rfl⟩ := hc
      simp only [and_self, if_true, true_and, eq_comm (a := userId)]
      omega
    · rw [if_neg hc, if_neg hc, if_neg fun h => hc ⟨h.1, h.2.1, h.2.2.1⟩]

variable (Raw) in
theorem chances_fanout (i : ι) (e : Event) (m' : Nat) (m : Nat) (msg : Message ι) (x : Nat)
    (conn : Conn ι) (hmsg : m' = m → msg = ⟨i, e⟩) :
    ((e.targetUserIds.map fun u => (.call e.channel i m' u e.payload : Task ι Raw)).map
        (chances m msg x conn)).sum + chances m msg x conn (.publish m' : Task ι Raw) ≤
      if m' = m then allowance msg conn else 0 := by
  rw [chances_calls]
  simp only [chances, allowance]
  by_cases hm : m' = m
  · have heq := hmsg hm
    subst heq
    by_cases hch : conn.channel = e.channel
    · by_cases hhome : conn.home = i
      · simp [hm, hch, hhome]
      · simp [hm, hch, hhome]
    · simp [hm, hch]
  · simp [hm]

theorem Inv.fanout (h : Inv c s) (i : ι) (e : Event) :
    Inv c { s with
      sent := s.sent ++ [⟨i, e⟩]
      tasks := e.targetUserIds.map (fun u => .call e.channel i s.sent.length u e.payload) ++
        .publish s.sent.length :: s.tasks } := by
  have hnew : (s.sent ++ [⟨i, e⟩])[s.sent.length]? = some ⟨i, e⟩ := List.getElem?_concat_length
  have hold (m : Nat) (msg : Message ι) (hm : s.sent[m]? = some msg) :
      (s.sent ++ [⟨i, e⟩])[m]? = some msg := by
    rw [List.getElem?_append_left (List.getElem?_eq_some_iff.mp hm).1]
    exact hm
  refine ⟨fun t ht => ?_, h.nodup, h.registered, fun x m p hp => ?_, fun m msg hm x conn hx => ?_⟩
  · rcases List.mem_append.mp ht with ht | ht
    · obtain ⟨u, _, rfl⟩ := List.mem_map.mp ht
      exact ⟨_, hnew, rfl, rfl⟩
    · rcases List.mem_cons.mp ht with rfl | ht
      · exact ⟨_, hnew⟩
      · exact (h.tasks t ht).mono hold fun _ _ hx => hx
  · obtain ⟨msg, hm, hpay⟩ := h.received x m p hp
    exact ⟨msg, hold m msg hm, hpay⟩
  · have hfanout := chances_fanout Raw i e s.sent.length m msg x conn fun heq =>
      Option.some.inj (hm.symm.trans (heq ▸ hnew))
    rw [List.map_append, List.sum_append, List.map_cons, List.sum_cons]
    by_cases hlen : s.sent.length = m
    · have hunsent : s.sent[m]? = none := List.getElem?_eq_none (Nat.le_of_eq hlen)
      have hgot : got s m x = 0 := by
        apply List.countP_eq_zero.mpr
        rintro ⟨m', p⟩ hp hm'
        obtain ⟨msg', hmsg', _⟩ := h.received x m' p hp
        have heq : m' = m := of_decide_eq_true hm'
        rw [heq, hunsent] at hmsg'
        cases hmsg'
      have htasks : (s.tasks.map (chances m msg x conn)).sum = 0 := by
        apply List.sum_eq_zero
        intro n hn
        obtain ⟨t, ht, rfl⟩ := List.mem_map.mp hn
        exact chances_unsent (h.tasks t ht) hunsent msg x conn
      rw [if_pos hlen] at hfanout
      show got s m x + _ ≤ _
      omega
    · have hm' : s.sent[m]? = some msg := by
        have hlt := (List.getElem?_eq_some_iff.mp hm).1
        rw [List.length_append, List.length_singleton] at hlt
        rwa [List.getElem?_append_left (by omega)] at hm
      have hbudget := h.budget m msg hm' x conn hx
      rw [if_neg hlen] at hfanout
      show got s m x + _ ≤ _
      omega

theorem inv_init (c : Config ι Raw) : Inv c State.init where
  tasks := List.forall_mem_nil _
  nodup _ _ _ := List.nodup_nil
  registered _ _ _ := List.forall_mem_nil _
  received _ _ _ := nofun
  budget _ _ := nofun

theorem Inv.delivered (h : Inv c s) (hx : s.opened[x]? = some conn) (hm : s.sent[m]? = some msg) :
    got s m x ≤ 1 ∧
      (0 < got s m x → conn.channel = msg.event.channel ∧ conn.userId ∈ msg.event.targetUserIds) := by
  have hbudget := h.budget m msg hm x conn (.inr hx)
  have hcount := List.nodup_iff_count_le_one.mp msg.event.nodup_targetUserIds conn.userId
  unfold allowance at hbudget
  split at hbudget
  · rename_i hch
    refine ⟨by omega, fun hpos => ⟨hch, List.count_pos_iff.mp ?_⟩⟩
    omega
  · exact ⟨by omega, fun hpos => absurd hpos (by omega)⟩

variable [DecidableEq Raw]

theorem Inv.replace {t : Task ι Raw} {ts : List (Task ι Raw)} (h : Inv c s) (s₁ : State ι Raw)
    (ht : t ∈ s.tasks) (ho : s₁.opened = s.opened) (hs : s₁.sent = s.sent)
    (htasks : s₁.tasks = s.tasks.erase t) (hok : ∀ t' ∈ ts, TaskOk c s t')
    (hb : ∀ i channel u, (s₁.byUser i channel u).Sublist (s.byUser i channel u))
    (hr : ∀ x m p, (m, p) ∈ s₁.inbox x → ∃ msg, s.sent[m]? = some msg ∧ p = msg.event.payload)
    (hc : ∀ m msg, s.sent[m]? = some msg → ∀ x conn, Could s x conn →
      got s₁ m x + (ts.map (chances m msg x conn)).sum ≤ got s m x + chances m msg x conn t) :
    Inv c { s₁ with tasks := ts ++ s₁.tasks } := by
  have hmono {t' : Task ι Raw} (h' : TaskOk c s t') : TaskOk c { s₁ with tasks := ts ++ s₁.tasks } t' :=
    TaskOk.mono h' (fun m msg hm => by rw [← hm]; exact congrArg (·[m]?) hs)
      fun x conn hx => by rw [← hx]; exact congrArg (·[x]?) ho
  refine ⟨fun t' ht' => ?_, fun i ch u => (h.nodup i ch u).sublist (hb i ch u),
    fun i ch u x hx => ?_, fun x m p hx => ?_, fun m msg hm x conn hx => ?_⟩
  · rcases List.mem_append.mp ht' with ht' | ht'
    · exact hmono (hok t' ht')
    · rw [htasks] at ht'
      exact hmono (h.tasks t' (List.mem_of_mem_erase ht'))
  · rw [ho]
    exact h.registered i ch u x ((hb i ch u).subset hx)
  · rw [hs]
    exact hr x m p hx
  · rw [hs] at hm
    unfold Could at hx
    rw [ho] at hx
    have hbudget := h.budget m msg hm x conn hx
    have hstep := hc m msg hm x conn hx
    have herase := List.sum_map_erase (chances m msg x conn) ht
    show got s₁ m x + ((ts ++ s₁.tasks).map _).sum ≤ _
    rw [List.map_append, List.sum_append, htasks]
    omega

theorem Inv.goesOn {t : Task ι Raw} {ts : List (Task ι Raw)} (h : Inv c s) (ht : t ∈ s.tasks)
    (hok : ∀ t' ∈ ts, TaskOk c s t')
    (hc : ∀ m msg, s.sent[m]? = some msg → ∀ x conn, Could s x conn →
      (ts.map (chances m msg x conn)).sum ≤ chances m msg x conn t) :
    Inv c { s with tasks := ts ++ s.tasks.erase t } :=
  h.replace { s with tasks := s.tasks.erase t } ht rfl rfl rfl hok (fun _ _ _ => .refl _)
    h.received fun m msg hm x conn hx => Nat.add_le_add_left (hc m msg hm x conn hx) _

theorem Inv.performs {t : Task ι Raw} {ts : List (Task ι Raw)} {s₁ : State ι Raw} (h : Inv c s)
    (ht : t ∈ s.tasks) (hp : Performs c { s with tasks := s.tasks.erase t } t ts s₁) :
    Inv c { s₁ with tasks := ts ++ s₁.tasks } := by
  have hok := h.tasks t ht
  cases hp with
  | @chat i m u p =>
    obtain ⟨msg, hm, hch, hpay⟩ := hok
    apply h.goesOn ht
    · refine List.forall_mem_singleton.mpr ⟨msg, hm, hch.symm, hpay, fun x hx => ?_⟩
      exact h.registered i .chat u x hx
    · intro m' msg' _ x conn hx
      have hcount := h.count_bucket hx i .chat u
      simp only [List.map_cons, List.map_nil, List.sum_singleton, chances]
      by_cases hmm : m = m'
      · simpa only [hmm, if_true, true_and] using hcount
      · rw [if_neg hmm]
        exact Nat.zero_le _
  | @notif i m u p =>
    obtain ⟨msg, hm, hch, rfl⟩ := hok
    refine h.replace _ ht rfl rfl rfl (List.forall_mem_nil _) (fun _ _ _ => .refl _)
      (received_deliver h hm _) fun m' msg' _ x conn hx => ?_
    have hcount := h.count_bucket hx i .notif u
    have hgot := got_deliver s m msg.event.payload (s.byUser i .notif u) m' x
    simp only [List.map_nil, List.sum_nil, chances]
    by_cases hmm : m = m'
    · simp only [hmm, if_true, true_and] at hgot ⊢
      exact Nat.le_trans hgot (Nat.add_le_add_left hcount _)
    · simp only [hmm, if_false] at hgot
      exact Nat.le_trans hgot (Nat.add_le_add_left (Nat.zero_le _) _)
  | @send i m u p left dropping x reply hx =>
    obtain ⟨msg, hm, hch, rfl, hleft⟩ := hok
    have hnew (dropping' : List Nat) :
        ∀ t' ∈ [Task.sends i m u msg.event.payload (left.erase x) dropping'], TaskOk c s t' :=
      List.forall_mem_singleton.mpr ⟨msg, hm, hch, rfl, fun x' hx' => hleft x' (List.mem_of_mem_erase hx')⟩
    have hpos := List.count_pos_iff.mpr hx
    by_cases htook : reply.took = true
    · rw [if_pos htook]
      refine h.replace _ ht rfl rfl rfl (hnew _) (fun _ _ _ => .refl _) (received_receive h hm x)
        fun m' msg' _ x' conn _ => ?_
      rw [got_receive]
      simp only [List.map_cons, List.map_nil, List.sum_singleton, chances, got]
      by_cases hmm : m = m'
      · by_cases hxx : x = x'
        · subst hxx
          simp only [hmm, and_self, if_true, List.count_erase_self]
          omega
        · simp only [hmm, hxx, and_false, if_false, if_true, List.count_erase_of_ne (Ne.symm hxx)]
          omega
      · simp only [hmm, false_and, if_false]
        omega
    · rw [if_neg htook]
      apply h.goesOn ht (hnew _)
      intro m' msg' _ x' conn _
      simp only [List.map_cons, List.map_nil, List.sum_singleton, chances]
      split
      · exact List.Sublist.count_le _ List.erase_sublist
      · exact Nat.le_refl _
  | @drop i m u p left dropping x hx =>
    refine h.replace _ ht rfl rfl rfl (List.forall_mem_singleton.mpr hok) (fun i' ch' u' => ?_)
      h.received fun m' msg' _ x' conn _ => Nat.le_refl _
    show (if _ then _ else _ : List Nat).Sublist _
    split
    · rename_i heq
      obtain ⟨rfl, rfl, rfl⟩ := heq
      exact List.erase_sublist
    · exact .refl _
  | finish => exact h.goesOn ht (List.forall_mem_nil _) fun _ _ _ _ _ _ => Nat.zero_le _
  | @publish m msg subscribers reply hm hnodup =>
    apply h.goesOn ht
    · intro t' ht'
      unfold publishUserEnvelope at ht'
      split at ht'
      · cases ht'
      · obtain ⟨i, _, rfl⟩ := List.mem_map.mp ht'
        exact ⟨msg, hm, rfl, rfl⟩
    · intro m' msg' hm' x conn _
      apply chances_publish c m msg reply hnodup
      rintro rfl
      exact Option.some.inj (hm.symm.trans hm')
  | lose => exact h.goesOn ht (List.forall_mem_nil _) fun _ _ _ _ _ _ => Nat.zero_le _
  | receive =>
    exact h.goesOn ht (dispatchMessage_ok hok) fun m' msg' hm' x conn _ => chances_receive hok hm' x conn
  | @next i m channel p u targets =>
    obtain ⟨msg, hm, hch, hpay, hne⟩ := hok
    apply h.goesOn ht
    · simp only [List.mem_cons, List.not_mem_nil, or_false, forall_eq_or_imp, forall_eq]
      exact ⟨⟨msg, hm, hch, hpay⟩, msg, hm, hch, hpay, hne⟩
    · intro m' msg' _ x conn _
      simp only [List.map_cons, List.map_nil, List.sum_cons, List.sum_nil, Nat.add_zero]
      exact chances_next m' msg' x conn i m channel p u targets
  | done => exact h.goesOn ht (List.forall_mem_nil _) fun _ _ _ _ _ _ => Nat.zero_le _

theorem Inv.step {a : Label ι Raw} (h : Inv c s) (hs : step c s a = some s') : Inv c s' := by
  cases a with
  | connect i channel u =>
    cases hs
    exact h.connect i channel u
  | disconnect i channel u x =>
    cases hs
    exact h.disconnect i channel u x
  | read x =>
    simp only [Fanout.step] at hs
    split at hs
    · cases hs
    · cases hs
      exact h.connections rfl rfl rfl (fun _ _ hx => hx) h.nodup h.registered
  | fanout i e =>
    cases hs
    exact h.fanout i e
  | run t choice =>
    simp only [Fanout.step] at hs
    split at hs
    · rename_i ht
      obtain ⟨⟨ts, s₁⟩, hperform, rfl⟩ := Option.map_eq_some_iff.mp hs
      exact h.performs ht (perform_some hperform)
    · cases hs

end Safety

section Local

variable {ι Raw : Type} [DecidableEq ι] {c : Config ι Raw} {s s' : State ι Raw}

def Task.Awaits (x : Nat) (conn : Conn ι) (m : Nat) : Task ι Raw → Prop
  | .call channel i m' u _ => m' = m ∧ conn = ⟨i, channel, u⟩
  | .sends i m' u _ left dropping => m' = m ∧ conn = ⟨i, .chat, u⟩ ∧ (x ∈ left ∨ x ∈ dropping)
  | _ => False

omit [DecidableEq ι] in
theorem got_pos {s : State ι Raw} : 0 < got s m x ↔ ∃ p, (m, p) ∈ s.inbox x := by
  unfold got
  rw [List.countP_pos_iff]
  simp

structure Reaches (x : Nat) (conn : Conn ι) (m : Nat) (s : State ι Raw) : Prop where
  old : x < s.opened.length
  reaches : x ∈ s.byUser conn.home conn.channel conn.userId →
    0 < got s m x ∨ ∃ t ∈ s.tasks, t.Awaits x conn m

def Writable (m x : Nat) (s : State ι Raw) : Label ι Raw → Prop
  | .run (.call .notif _ m' _ _) _ => m' = m → s.unread x < queueMaxSize
  | _ => True

theorem Performs.got_le (h : Performs c s t ts s') (m x : Nat) : got s m x ≤ got s' m x := by
  cases h with
  | @notif i m' u p =>
    unfold got State.deliver
    dsimp only
    split
    · rw [List.countP_append]
      exact Nat.le_add_right _ _
    · exact Nat.le_refl _
  | @send i m' u p left dropping x' reply =>
    split
    · rw [got_receive]
      exact Nat.le_add_right _ _
    · exact Nat.le_refl _
  | _ => exact Nat.le_refl _

omit [DecidableEq ι] in
theorem got_deliver_pos {s : State ι Raw} (hx : x ∈ queues) (hroom : s.unread x < queueMaxSize)
    (m : Nat) (p : String) : 0 < got (s.deliver m p queues) m x := by
  rw [got_pos]
  refine ⟨p, ?_⟩
  simp only [State.deliver, if_pos (And.intro hx hroom)]
  exact List.mem_append_right _ (List.mem_singleton_self _)

/-- The call that a connection waits for brings the message, goes on, or drops the connection. -/
theorem Performs.awaits (h : Performs c s t ts s') (hinv : ∀ i channel u, (s.byUser i channel u).Nodup)
    (ht : t.Awaits x conn m) (hroom : ∀ i u p, t = .call .notif i m u p → s.unread x < queueMaxSize)
    (hx : x ∈ s.byUser conn.home conn.channel conn.userId)
    (hx' : x ∈ s'.byUser conn.home conn.channel conn.userId) :
    0 < got s' m x ∨ ∃ t' ∈ ts, t'.Awaits x conn m := by
  cases h with
  | chat =>
    obtain ⟨rfl, rfl⟩ := ht
    exact .inr ⟨_, List.mem_singleton_self _, rfl, rfl, .inl hx⟩
  | notif =>
    obtain ⟨rfl, rfl⟩ := ht
    exact .inl (got_deliver_pos hx (hroom _ _ _ rfl) _ _)
  | @send i m' u p left dropping x' reply hmem =>
    obtain ⟨rfl, rfl, hor⟩ := ht
    by_cases hxx : x = x'
    · subst hxx
      cases reply with
      | ok =>
        refine .inl ?_
        rw [if_pos Reply.took_ok, got_receive, if_pos ⟨rfl, rfl⟩]
        exact Nat.succ_pos _
      | raised => exact .inr ⟨_, List.mem_singleton_self _, rfl, rfl, .inr List.mem_cons_self⟩
      | raisedAfter => exact .inr ⟨_, List.mem_singleton_self _, rfl, rfl, .inr List.mem_cons_self⟩
    · refine .inr ⟨_, List.mem_singleton_self _, rfl, rfl, hor.imp ?_ ?_⟩
      · exact (List.mem_erase_of_ne hxx).mpr
      · intro hd
        split
        · exact List.mem_cons_of_mem _ hd
        · exact hd
  | @drop i m' u p left dropping x' hmem =>
    obtain ⟨rfl, rfl, hor⟩ := ht
    have hne : x ≠ x' := by
      rintro rfl
      replace hx' : x ∈ if i = i ∧ Channel.chat = .chat ∧ u = u then
        (s.byUser i .chat u).erase x else s.byUser i .chat u := hx'
      rw [if_pos ⟨rfl, rfl, rfl⟩] at hx'
      exact (hinv i .chat u).not_mem_erase hx'
    exact .inr ⟨_, List.mem_singleton_self _, rfl, rfl, hor.imp_right (List.mem_erase_of_ne hne).mpr⟩
  | finish =>
    obtain ⟨_, _, hor⟩ := ht
    rcases hor with hor | hor
    · cases hor
    · cases hor
  | publish => exact ht.elim
  | lose => exact ht.elim
  | receive => exact ht.elim
  | next => exact ht.elim
  | done => exact ht.elim

theorem Performs.byUser (h : Performs c s t ts s') (i : ι) (channel : Channel) (u : Uuid) :
    (s'.byUser i channel u).Sublist (s.byUser i channel u) := by
  cases h with
  | send reply hx => split <;> exact .refl _
  | drop hx =>
    show (if _ then _ else _ : List Nat).Sublist _
    split
    · rename_i heq
      obtain ⟨rfl, rfl, rfl⟩ := heq
      exact List.erase_sublist
    · exact .refl _
  | _ => exact .refl _

variable [DecidableEq Raw]

theorem Reaches.performs {t : Task ι Raw} {ts : List (Task ι Raw)} {s₁ : State ι Raw}
    (h : Reaches x conn m s) (hinv : Inv c s) (ht : t ∈ s.tasks)
    (hroom : ∀ i u p, t = .call .notif i m u p → s.unread x < queueMaxSize)
    (hp : Performs c { s with tasks := s.tasks.erase t } t ts s₁) :
    Reaches x conn m { s₁ with tasks := ts ++ s₁.tasks } := by
  obtain ⟨hopened, _, htasks⟩ := hp.frame
  refine ⟨by rw [hopened]; exact h.old, fun hx => ?_⟩
  have hx₀ : x ∈ s.byUser conn.home conn.channel conn.userId := (hp.byUser _ _ _).subset hx
  rcases h.reaches hx₀ with hgot | ⟨t', ht', haw⟩
  · exact .inl (Nat.lt_of_lt_of_le hgot (hp.got_le m x))
  · by_cases heq : t' = t
    · subst heq
      refine (hp.awaits hinv.nodup haw hroom hx₀ hx).imp_right ?_
      rintro ⟨t'', ht'', haw'⟩
      exact ⟨t'', List.mem_append_left _ ht'', haw'⟩
    · refine .inr ⟨t', List.mem_append_right _ ?_, haw⟩
      rw [htasks]
      exact (List.mem_erase_of_ne heq).mpr ht'

theorem Reaches.step {a : Label ι Raw} (h : Reaches x conn m s) (hinv : Inv c s)
    (hw : Writable m x s a) (hs : step c s a = some s') : Reaches x conn m s' := by
  cases a with
  | connect i channel u =>
    cases hs
    unfold State.connect
    dsimp only
    split
    · exact h
    · refine ⟨?_, fun hx => h.reaches ?_⟩
      · rw [List.length_append]
        exact Nat.lt_of_lt_of_le h.old (Nat.le_add_right _ _)
      · replace hx : x ∈ if conn.home = i ∧ conn.channel = channel ∧ conn.userId = u then
          s.opened.length :: s.byUser i channel u
          else s.byUser conn.home conn.channel conn.userId := hx
        split at hx
        · rename_i heq
          obtain ⟨rfl, rfl, rfl⟩ := heq
          exact (List.mem_cons.mp hx).resolve_left (Nat.ne_of_lt h.old)
        · exact hx
  | disconnect i channel u y =>
    cases hs
    refine ⟨h.old, fun hx => h.reaches ?_⟩
    replace hx : x ∈ if conn.home = i ∧ conn.channel = channel ∧ conn.userId = u then
      (s.byUser i channel u).erase y else s.byUser conn.home conn.channel conn.userId := hx
    split at hx
    · rename_i heq
      obtain ⟨rfl, rfl, rfl⟩ := heq
      exact List.mem_of_mem_erase hx
    · exact hx
  | read y =>
    simp only [Fanout.step] at hs
    split at hs
    · cases hs
    · cases hs
      exact ⟨h.old, h.reaches⟩
  | fanout i e =>
    cases hs
    refine ⟨h.old, fun hx => (h.reaches hx).imp_right ?_⟩
    rintro ⟨t, ht, haw⟩
    exact ⟨t, List.mem_append_right _ (List.mem_cons_of_mem _ ht), haw⟩
  | run t choice =>
    simp only [Fanout.step] at hs
    split at hs
    · rename_i ht
      obtain ⟨⟨ts, s₁⟩, hperform, rfl⟩ := Option.map_eq_some_iff.mp hs
      refine h.performs hinv ht ?_ (perform_some hperform)
      rintro i u p rfl
      exact hw rfl
    · cases hs

def LocallyDone (i : ι) (m : Nat) (s : State ι Raw) : Prop := ∀ t ∈ s.tasks, t.callsAt i m = false

/-- Each connection has received each message at most once, and only messages for its user. -/
structure Delivers (s : State ι Raw) : Prop where
  once : ∀ x m, got s m x ≤ 1
  addressed : ∀ x m p, (m, p) ∈ s.inbox x → ∃ conn msg, s.opened[x]? = some conn ∧
    s.sent[m]? = some msg ∧ conn.channel = msg.event.channel ∧
    conn.userId ∈ msg.event.targetUserIds ∧ p = msg.event.payload

omit [DecidableEq Raw] in
theorem Inv.got_le_one (h : Inv c s) (x m : Nat) : got s m x ≤ 1 := by
  cases hm : s.sent[m]? with
  | none =>
    have hgot : ¬ 0 < got s m x := by
      rw [got_pos]
      rintro ⟨p, hp⟩
      obtain ⟨msg, hmsg, _⟩ := h.received x m p hp
      rw [hm] at hmsg
      cases hmsg
    omega
  | some msg =>
    cases hx : s.opened[x]? with
    | some conn => exact (h.delivered hx hm).1
    | none =>
      have hbudget := h.budget m msg hm x ⟨msg.origin, msg.event.channel, 0⟩ (.inl hx)
      have hcount := List.nodup_iff_count_le_one.mp msg.event.nodup_targetUserIds 0
      simp only [allowance, if_true] at hbudget
      omega

omit [DecidableEq Raw] in
theorem Inv.opened_of_received (h : Inv c s) (hp : (m, p) ∈ s.inbox x) (hm : s.sent[m]? = some msg) :
    ∃ conn, s.opened[x]? = some conn := by
  cases hx : s.opened[x]? with
  | some conn => exact ⟨conn, rfl⟩
  | none =>
    have hpos : 0 < got s m x := got_pos.mpr ⟨p, hp⟩
    obtain ⟨channel, hne⟩ : ∃ channel, channel ≠ msg.event.channel := by
      cases msg.event.channel with
      | chat => exact ⟨.notif, nofun⟩
      | notif => exact ⟨.chat, nofun⟩
    have hbudget := h.budget m msg hm x ⟨msg.origin, channel, 0⟩ (.inl hx)
    simp only [allowance, if_neg hne] at hbudget
    omega

omit [DecidableEq Raw] in
theorem Inv.delivers (h : Inv c s) : Delivers s where
  once := h.got_le_one
  addressed x m p hp := by
    obtain ⟨msg, hm, hpay⟩ := h.received x m p hp
    obtain ⟨conn, hx⟩ := h.opened_of_received hp hm
    obtain ⟨hch, hu⟩ := (h.delivered hx hm).2 (got_pos.mpr ⟨p, hp⟩)
    exact ⟨conn, msg, hx, hm, hch, hu, hpay⟩

theorem step_sent {a : Label ι Raw} {m : Nat} (hm : s.sent[m]? = some msg) (hs : step c s a = some s') :
    s'.sent[m]? = some msg := by
  cases a with
  | connect i channel u =>
    cases hs
    unfold State.connect
    dsimp only
    split <;> exact hm
  | disconnect i channel u x =>
    cases hs
    exact hm
  | read x =>
    simp only [step] at hs
    split at hs
    · cases hs
    · cases hs
      exact hm
  | fanout i e =>
    cases hs
    show (s.sent ++ _)[m]? = _
    rw [List.getElem?_append_left (List.getElem?_eq_some_iff.mp hm).1]
    exact hm
  | run t choice =>
    simp only [step] at hs
    split at hs
    · obtain ⟨⟨ts, s₁⟩, hperform, rfl⟩ := Option.map_eq_some_iff.mp hs
      show s₁.sent[m]? = _
      rw [(perform_some hperform).frame.2.1]
      exact hm
    · cases hs

theorem reaches_fanout {x : Nat} (hinv : Inv c s) {e : Event} (hu : u ∈ e.targetUserIds)
    (hx : x ∈ s.byUser i e.channel u) (hs : step c s (.fanout i e) = some s') :
    s'.sent[s.sent.length]? = some ⟨i, e⟩ ∧ Reaches x ⟨i, e.channel, u⟩ s.sent.length s' := by
  cases hs
  refine ⟨List.getElem?_concat_length, ?_,
    fun _ => .inr ⟨_, List.mem_append_left _ (List.mem_map_of_mem hu), rfl, rfl⟩⟩
  exact (List.getElem?_eq_some_iff.mp (hinv.registered i e.channel u x hx)).1

omit [DecidableEq Raw] in
theorem LocallyDone.not_awaits (h : LocallyDone i m s) {t : Task ι Raw} (ht : t ∈ s.tasks) :
    ¬ t.Awaits x ⟨i, channel, u⟩ m := by
  intro haw
  have hcalls := h t ht
  cases t with
  | call channel i' m' u' p =>
    obtain ⟨rfl, heq⟩ := haw
    cases heq
    simp [Task.callsAt] at hcalls
  | sends i' m' u' p left dropping =>
    obtain ⟨rfl, heq, _⟩ := haw
    cases heq
    simp [Task.callsAt] at hcalls
  | publish => exact haw
  | envelope => exact haw
  | dispatch => exact haw

/-- Whatever the order of local deliveries, publishes and dispatches: every connection receives every
message at most once and only if it is for its user, and a connection of a target user on the
publishing instance that stays registered and has room receives it. -/
theorem delivery (c : Config ι Raw) (run : List (Label ι Raw)) (s : State ι Raw)
    (hs : exec (step c) .init run = some s) :
    Delivers s ∧
    ∀ before i e after s₀, run = before ++ .fanout i e :: after →
      exec (step c) .init before = some s₀ →
      ∀ u ∈ e.targetUserIds, ∀ x ∈ s₀.byUser i e.channel u, x ∈ s.byUser i e.channel u →
        Along (step c) (Writable s₀.sent.length x) s₀ (.fanout i e :: after) →
        LocallyDone i s₀.sent.length s → (s₀.sent.length, e.payload) ∈ s.inbox x := by
  have hreached {run : List (Label ι Raw)} {s : State ι Raw}
      (hs : exec (step c) .init run = some s) : Inv c s :=
    exec_invariant' (I := Inv c) (fun h hs => h.step hs) (inv_init c) hs
  refine ⟨(hreached hs).delivers, ?_⟩
  rintro before i e after s₀ rfl hbefore u hu x hx hx' hwritable hdone
  have hinv₀ := hreached hbefore
  rw [exec_append, hbefore, Option.bind_some] at hs
  obtain ⟨s₁, hs₁, hafter⟩ := exec_cons_some hs
  have hend : Inv c s ∧ s.sent[s₀.sent.length]? = some ⟨i, e⟩ ∧
      Reaches x ⟨i, e.channel, u⟩ s₀.sent.length s := by
    apply exec_invariant (P := Writable s₀.sent.length x) (I := fun s => Inv c s ∧
      s.sent[s₀.sent.length]? = some ⟨i, e⟩ ∧ Reaches x ⟨i, e.channel, u⟩ s₀.sent.length s) _ _
      (hwritable.2 s₁ hs₁) hafter
    · rintro s a s' ⟨hinv, hmsg, hr⟩ hw hs
      exact ⟨hinv.step hs, step_sent hmsg hs, hr.step hinv hw hs⟩
    · exact ⟨hinv₀.step hs₁, reaches_fanout hinv₀ hu hx hs₁⟩
  obtain ⟨hinv, hmsg, hr⟩ := hend
  rcases hr.reaches hx' with hgot | ⟨t, ht, haw⟩
  · obtain ⟨p, hp⟩ := got_pos.mp hgot
    obtain ⟨msg, hmsg', rfl⟩ := hinv.received x _ p hp
    cases hmsg.symm.trans hmsg'
    exact hp
  · exact absurd haw (hdone.not_awaits ht)

end Local

def sampleConfig : Config Bool Envelope where
  instanceId := fun i => if i then "a" else "b"
  distinct := by decide
  dumps := id
  loads := some
  loads_dumps _ := rfl
  maxConnectionsPerUser := 5

def sampleConnects : List (Label Bool Envelope) :=
  [.connect true .chat 1, .connect true .chat 2, .connect false .chat 2]

/-- User 1 writes to user 2, who has a socket on each instance; the envelope reaches both listeners. -/
def sampleAfter : List (Label Bool Envelope) :=
  let data : Envelope := { origin := "a", targetUserIds := [2, 1], payload := "hi" }
  [.run (.call .chat true 0 2 "hi") .go, .run (.call .chat true 0 1 "hi") .go,
    .run (.publish 0) (.publish .ok [true, false]),
    .run (.sends true 0 2 "hi" [1] []) (.send 1 .ok), .run (.sends true 0 2 "hi" [] []) .go,
    .run (.envelope true 0 .chat data) .go, .run (.envelope false 0 .chat data) .go,
    .run (.dispatch false 0 .chat "hi" [2, 1]) .go,
    .run (.call .chat false 0 2 "hi") .go, .run (.sends false 0 2 "hi" [2] []) (.send 2 .ok),
    .run (.sends false 0 2 "hi" [] []) .go,
    .run (.sends true 0 1 "hi" [0] []) (.send 0 .ok), .run (.sends true 0 1 "hi" [] []) .go,
    .run (.dispatch false 0 .chat "hi" [1]) .go, .run (.call .chat false 0 1 "hi") .go,
    .run (.sends false 0 1 "hi" [] []) .go, .run (.dispatch false 0 .chat "hi" []) .go]

theorem delivery_sample :
    ∃ s, exec (step sampleConfig) .init
        (sampleConnects ++ .fanout true (.dm 2 1 "hi" (by decide)) :: sampleAfter) = some s ∧
      Delivers s ∧ (0, "hi") ∈ s.inbox 1 := by
  have hrun : (exec (step sampleConfig) .init
      (sampleConnects ++ .fanout true (.dm 2 1 "hi" (by decide)) :: sampleAfter)).map
        (fun s => (s.byUser true .chat 2, s.tasks)) = some ([1], []) := by decide +kernel
  have hconnects : (exec (step sampleConfig) .init sampleConnects).map
      (fun s => (s.byUser true .chat 2, s.sent.length)) = some ([1], 0) := by decide +kernel
  obtain ⟨s, hs, hfinal⟩ := Option.map_eq_some_iff.mp hrun
  obtain ⟨s₀, hs₀, hfirst⟩ := Option.map_eq_some_iff.mp hconnects
  obtain ⟨hbucket, htasks⟩ := Prod.mk.inj hfinal
  obtain ⟨hbucket₀, hlen⟩ := Prod.mk.inj hfirst
  obtain ⟨hdelivers, hlocal⟩ := delivery sampleConfig _ s hs
  refine ⟨s, hs, hdelivers, ?_⟩
  have hwritable : Along (step sampleConfig) (Writable s₀.sent.length 1) s₀
      (.fanout true (.dm 2 1 "hi" (by decide)) :: sampleAfter) := by
    apply (Along.of_forall (R := fun a => ∀ s, Writable s₀.sent.length 1 s a) _ _ _).mono
    · exact fun s a h => h s
    · simp [sampleAfter, Writable]
  have hmem := hlocal sampleConnects true (.dm 2 1 "hi" (by decide)) sampleAfter s₀ rfl hs₀ 2
    List.mem_cons_self 1 (by rw [show Event.channel _ = Channel.chat from rfl, hbucket₀]; decide)
    (by rw [show Event.channel _ = Channel.chat from rfl, hbucket]; decide) hwritable
    (by rw [LocallyDone, htasks]; exact List.forall_mem_nil _)
  rw [hlen] at hmem
  exact hmem

end PuppyTalk.Fanout
