import FengShui.Transport.ChannelMoves

/-!
# What a channel keeps

The class of a channel and its server never change, and who closes never opens again. A connection
is of a server, an operation is one that the class of its channel has, and a server that has its
connections behind it has no operation of theirs to come.
-/

namespace FengShui.Transport

open FengShui.Memory State

/-- The events of the members of a class. -/
def Kind.events (kind : Kind) : List Event := kind.notifier.reads ++ kind.notifier.writes

theorem Member.event_request (member : Member) : member.request.event ∈ member.kind.events := by
  cases member with
  | clientRead => exact (by decide : Event.read ∈ Kind.client.events)
  | clientWriteSingle | clientWriteMany => exact (by decide : Event.write ∈ Kind.client.events)
  | clientReceive => exact (by decide : Event.receiveMessage ∈ Kind.client.events)
  | clientSendSingle | clientSendMany =>
    exact (by decide : Event.sendMessage ∈ Kind.client.events)
  | connectionRead => exact (by decide : Event.read ∈ Kind.serverConnection.events)
  | connectionWriteSingle | connectionWriteMany =>
    exact (by decide : Event.write ∈ Kind.serverConnection.events)
  | serverReceive => exact (by decide : Event.receiveMessage ∈ Kind.server.events)
  | serverRespondSingle | serverRespondMany =>
    exact (by decide : Event.sendMessage ∈ Kind.server.events)
  | fileReadSingle | fileReadMany => exact (by decide : Event.read ∈ Kind.file.events)
  | fileWriteSingle | fileWriteMany => exact (by decide : Event.write ∈ Kind.file.events)

/-- The `close` of a server is behind its connections. -/
def Stage.beyond : Stage → Bool
  | opened | connections _ => false
  | awaits _ | closed => true

namespace Channel

variable (channel : Channel)

@[simp]
theorem kind_lower : channel.lower.kind = channel.kind := by
  unfold lower
  dsimp only
  split <;> split <;> rfl

@[simp]
theorem server_lower : channel.lower.server = channel.server := by
  unfold lower
  dsimp only
  split <;> split <;> rfl

section Close

variable (graceful : Bool)

/-- What `close` leaves as it is. -/
theorem close_eq : channel.close graceful =
    { channel with
      active := (channel.close graceful).active
      closing := true
      stage := (channel.close graceful).stage } := by
  unfold close
  split
  · rename_i hclosing
    rw [← hclosing]
  · split
    · rfl
    · unfold beginClose
      split <;> rfl

@[simp]
theorem kind_close : (channel.close graceful).kind = channel.kind := by rw [close_eq]

@[simp]
theorem server_close : (channel.close graceful).server = channel.server := by rw [close_eq]

@[simp]
theorem pending_close : (channel.close graceful).pending = channel.pending := by rw [close_eq]

@[simp]
theorem closing_close : (channel.close graceful).closing = true := by rw [close_eq]

@[simp]
theorem closer_close : (channel.close graceful).closer = channel.closer := by rw [close_eq]

theorem close_of_closing (h : channel.closing = true) : channel.close graceful = channel := if_pos h

/-- A server begins with its connections. -/
theorem beyond_close (hkind : channel.kind = .server)
    (h : (channel.close graceful).stage.beyond = true) : channel.stage.beyond = true := by
  unfold close at h
  split at h
  · exact h
  · rw [hkind] at h
    cases h

end Close

/-- A channel behind a completion that may have taken a handler. -/
theorem lowered_eq {lowered : Channel} (h : lowered = channel.lower ∨ ∃ bufferId succeeded,
    lowered = channel.lower.removeHandler succeeded bufferId) :
    lowered =
      { channel.lower with
        errorHandlers := lowered.errorHandlers
        doneHandlers := lowered.doneHandlers } := by
  rcases h with rfl | ⟨bufferId, succeeded, rfl⟩
  · rfl
  · rw [removeHandler_eq]

theorem beginClose_eq (graceful : Bool) : channel.beginClose graceful =
    { channel with
      active := (channel.beginClose graceful).active
      stage := (channel.beginClose graceful).stage } := by
  unfold beginClose
  split <;> rfl

end Channel

namespace Alters

variable {state : State} {index : ℕ} {before after : Channel} {action : Action}

theorem kind (h : Alters state index before action after) : after.kind = before.kind := by
  cases h with
  | closes graceful => exact before.kind_close graceful
  | lowers _ _ hlowered => rw [before.lowered_eq hlowered, Channel.kind_lower]
  | lowersAndCloses => rw [Channel.kind_close, Channel.kind_lower]
  | beginsClose => rw [Channel.beginClose_eq]
  | _ => rfl

theorem server (h : Alters state index before action after) : after.server = before.server := by
  cases h with
  | closes graceful => exact before.server_close graceful
  | lowers _ _ hlowered => rw [before.lowered_eq hlowered, Channel.server_lower]
  | lowersAndCloses => rw [Channel.server_close, Channel.server_lower]
  | beginsClose => rw [Channel.beginClose_eq]
  | _ => rfl

/-- Who closes was told to. -/
theorem closing_cases (h : Alters state index before action after)
    (hclosing : after.closing = true) :
    before.closing = true ∨ ∃ target, closeTarget state action = some target ∧
      (target = index ∨ before.server = some target) := by
  cases h with
  | closes graceful htarget hidx => exact .inr ⟨_, htarget, hidx⟩
  | lowers _ _ hlowered =>
    rw [before.lowered_eq hlowered, Channel.closing_lower] at hclosing
    exact .inl hclosing
  | lowersAndCloses hsub hidx hbuf =>
    obtain ⟨bufferId, hbuf⟩ := Option.isSome_iff_exists.mp hbuf
    refine .inr ⟨index, ?_, .inl rfl⟩
    rw [closeTarget, hsub, Option.bind_some, hbuf, ← hidx]
    rfl
  | beginsClose =>
    rw [Channel.beginClose_eq] at hclosing
    exact .inl hclosing
  | _ => exact .inl hclosing

/-- `_closer` is completed by a completion. -/
theorem closer (h : Alters state index before action after)
    (haction : ∀ position result submission, action = .complete position result →
      state.submitted[position]? = some submission → submission.call.channel ≠ index) :
    after.closer = before.closer := by
  cases h with
  | closes graceful => exact before.closer_close graceful
  | lowers hsub hidx | lowersAndCloses hsub hidx =>
    exact absurd hidx (haction _ _ _ rfl hsub)
  | beginsClose => rw [Channel.beginClose_eq]
  | _ => rfl

theorem closed (h : Alters state index before action after) {count : ℕ}
    (hsound : before.Sound count) (hstage : before.stage = .closed) : after.stage = .closed := by
  have hclosing := hsound.opened (by rw [hstage]; exact nofun)
  cases h with
  | closes graceful => rwa [before.close_of_closing graceful hclosing]
  | lowers _ _ hlowered => rwa [before.lowered_eq hlowered, Channel.stage_lower]
  | lowersAndCloses =>
    rwa [Channel.close_of_closing _ false (before.closing_lower.trans hclosing),
      Channel.stage_lower]
  | beginsClose hconns => rw [hstage] at hconns; cases hconns
  | ends => rfl
  | _ => exact hstage

/-- A server is beyond its connections when it has awaited them. -/
theorem beyond (h : Alters state index before action after) (hkind : before.kind = .server)
    (hbeyond : after.stage.beyond = true) :
    before.stage.beyond = true ∨ action = .closedConnections index := by
  cases h with
  | closes graceful => exact .inl (before.beyond_close graceful hkind hbeyond)
  | lowers _ _ hlowered =>
    rw [before.lowered_eq hlowered, Channel.stage_lower] at hbeyond
    exact .inl hbeyond
  | lowersAndCloses =>
    have hlower := Channel.beyond_close _ false (before.kind_lower.trans hkind) hbeyond
    exact .inl (before.stage_lower ▸ hlower)
  | beginsClose => exact .inr rfl
  | ends hstage => exact .inl (by rw [hstage]; rfl)
  | _ => exact .inl hbeyond

/-- Where no member may go on, no operation is added to those of the channel. -/
theorem pending_le (h : Alters state index before action after)
    (hclosing : state.isClosing before = true) (hkind : before.kind ≠ .client) :
    after.pending ≤ before.pending := by
  cases h with
  | closes graceful => exact (before.pending_close graceful).le
  | proceeds _ _ _ hsrv => rw [hclosing] at hsrv; cases hsrv
  | connects _ hclient => exact absurd hclient hkind
  | lowers _ _ hlowered =>
    rw [before.lowered_eq hlowered, Channel.pending_lower]
    omega
  | lowersAndCloses =>
    rw [Channel.pending_close, Channel.pending_lower]
    omega
  | beginsClose => rw [Channel.beginClose_eq]
  | _ => exact le_rfl

end Alters

variable {state next : State} {action : Action} {index : ℕ}

/-- A channel behind a step was there before it, or is new. -/
theorem before_step {after : Channel} (hstep : step state action = some next)
    (hafter : next.channels[index]? = some after) :
    (∃ before, state.channels[index]? = some before ∧ Alters state index before action after) ∨
      ∃ kind server, action = .opened kind server ∧ index = state.channels.length ∧
        after = .create kind server := by
  cases hbefore : state.channels[index]? with
  | some before =>
    obtain ⟨found, hfound, halters⟩ := alters_step hstep hbefore
    obtain rfl := Option.some.inj (hafter.symm.trans hfound)
    exact .inl ⟨before, rfl, halters⟩
  | none =>
    have hidx := List.getElem?_eq_none_iff.mp hbefore
    have hlt := (List.getElem?_eq_some_iff.mp hafter).1
    by_cases haction : ∃ kind server, action = .opened kind server
    · obtain ⟨kind, server, rfl⟩ := haction
      obtain ⟨rfl, -⟩ := opened_step hstep
      rw [List.length_append, List.length_singleton] at hlt
      obtain rfl : index = state.channels.length := by omega
      rw [List.getElem?_concat_length] at hafter
      exact .inr ⟨kind, server, rfl, rfl, (Option.some.inj hafter).symm⟩
    · have hlen := length_step hstep fun kind server heq => haction ⟨kind, server, heq⟩
      omega

/-- Of the classes, only connections close behind an error handler. -/
theorem kind_of_closes {kind : Kind} {event : Event} (hcloses : event ∈ kind.notifier.closes)
    (hreads : event ∉ kind.notifier.reads) : kind = .serverConnection := by
  cases kind with
  | serverConnection => rfl
  | client => exact absurd (List.mem_singleton.mp hcloses ▸ by decide) hreads
  | server | file => cases hcloses

theorem closes_notify {call : Call} {bufferId : ℕ} {result : ℤ} {channel : Channel}
    (h : index ∈ (state.notify call bufferId result channel).closes) :
    index ∈ state.closes ∨ index = call.channel ∧ channel.kind = .serverConnection := by
  unfold notify at h
  dsimp only at h
  split at h
  · split at h
    · split at h
      · exact .inl h
      · split at h
        · rw [State.close_eq] at h
          exact .inl h
        · exact .inl h
    · rename_i hreads
      split at h
      · unfold invoke at h
        dsimp only at h
        split at h
        -- A handler that closes is one of a connection.
        · rename_i hcloses
          rw [Bool.and_eq_true, decide_eq_true_eq, Channel.kind_lower] at hcloses
          rcases List.mem_append.mp h with hmem | hmem
          · exact .inl hmem
          · exact .inr ⟨List.mem_singleton.mp hmem, kind_of_closes hcloses.2 hreads⟩
        · exact .inl h
      · exact .inl h
  · exact .inl h

theorem closes_proceed (full : ℕ → Bool) (call : Call) (bufferIds : List ℕ) (state : State) :
    (state.proceed full call bufferIds).closes = state.closes := by
  rcases proceed_cases full call bufferIds state with ⟨heq, -⟩ | ⟨channel, -, -, heq⟩ <;> rw [heq]

theorem closes_step (hstep : step state action = some next) (h : index ∈ next.closes) :
    index ∈ state.closes ∨
      ∃ channel, state.channels[index]? = some channel ∧ channel.kind = .serverConnection := by
  cases step_move hstep with
  | @complete position submission result hsub =>
    unfold State.complete at h
    cases hchan : state.channels[submission.call.channel]? with
    | none =>
      rw [hchan] at h
      exact .inl h
    | some channel =>
      rw [hchan] at h
      dsimp only at h
      split at h
      · exact .inl h
      · split at h
        · exact .inl h
        -- Only a connection of a server is closed by its own completion.
        · rcases closes_notify h with hmem | ⟨rfl, hkind⟩
          · exact .inl hmem
          · exact .inr ⟨channel, hchan, hkind⟩
  | close target graceful =>
    rw [State.close_eq] at h
    exact .inl h
  | @closeFailed target closes hcloses =>
    rw [State.close_eq] at h
    rw [hcloses]
    exact .inl (List.mem_cons_of_mem target h)
  | call =>
    unfold State.call at h
    dsimp only at h
    split at h
    · exact .inl h
    · split at h
      · rw [closes_proceed] at h
        exact .inl h
      · exact .inl h
  | resume =>
    rw [closes_proceed] at h
    exact .inl h
  | connect =>
    unfold State.connect at h
    split at h
    · exact .inl h
    · split at h <;> exact .inl h
  | accepted | opened | waits | release | closedConnections | timeout | closed => exact .inl h

/-- An operation that the class of its channel has. -/
def Fits (kind : Kind) (submission : Submission) : Prop :=
  match submission.bufferId with
  | some _ => submission.call.request.event ∈ kind.events
  | none => submission.call.request.event = .connect ∧ kind = .client

/-- The channels, and the operations and calls that are theirs. -/
structure State.Linked (state : State) : Prop where
  standing : Standing state
  server : ∀ (index server : ℕ) (channel : Channel), state.channels[index]? = some channel →
    channel.server = some server → channel.kind = .serverConnection ∧
      ∃ other, state.channels[server]? = some other ∧ other.kind = .server
  closes : ∀ index ∈ state.closes, ∃ channel, state.channels[index]? = some channel ∧
    channel.kind = .serverConnection
  submitted : ∀ submission ∈ state.submitted, ∀ channel,
    state.channels[submission.call.channel]? = some channel → Fits channel.kind submission
  waiting : ∀ call ∈ state.buffers.waiting, ∀ channel,
    state.channels[call.channel]? = some channel → call.request.event ∈ channel.kind.events

namespace State.Linked

variable {state next : State} {action : Action}

/-- The class of a channel is that of before. -/
theorem kind_eq {index : ℕ} {before after : Channel} (hstep : step state action = some next)
    (hbefore : state.channels[index]? = some before) (hafter : next.channels[index]? = some after) :
    after.kind = before.kind := by
  obtain ⟨found, hfound, halters⟩ := alters_step hstep hbefore
  obtain rfl := Option.some.inj (hafter.symm.trans hfound)
  exact halters.kind

theorem kind_step {index : ℕ} {kind : Kind} (hstep : step state action = some next)
    (h : ∃ channel, state.channels[index]? = some channel ∧ channel.kind = kind) :
    ∃ channel, next.channels[index]? = some channel ∧ channel.kind = kind := by
  obtain ⟨before, hbefore, rfl⟩ := h
  obtain ⟨after, hafter, halters⟩ := alters_step hstep hbefore
  exact ⟨after, hafter, halters.kind⟩

/-- The event of the call of a step. -/
theorem event_calls {call : Call} (h : Calls state action call) {channel : Channel}
    (hchan : state.channels[call.channel]? = some channel) :
    call.request.event ∈ channel.kind.events := by
  cases h with
  | call full hfound hkind =>
    obtain rfl := Option.some.inj (hchan.symm.trans hfound)
    rw [hkind]
    exact Member.event_request _

theorem event_advances (h : Linked state) {call : Call} {bufferIds : List ℕ}
    (hstep : step state action = some next)
    (hadv : advances state action = some (call, bufferIds)) {channel : Channel}
    (hchan : state.channels[call.channel]? = some channel) :
    call.request.event ∈ channel.kind.events := by
  rcases advances_cases hstep hadv with hmem | hcalls
  · exact h.waiting call hmem channel hchan
  · exact event_calls hcalls hchan

theorem step (h : Linked state) (hstep : Transport.step state action = some next) :
    Linked next := by
  refine ⟨h.standing.step hstep, fun index server channel hchan hsrv => ?_,
    fun index hmem => ?_, fun submission hmem channel hchan =>
      ?_, fun call hmem channel hchan => ?_⟩
  · rcases before_step hstep hchan with ⟨before, hbefore, halters⟩ | ⟨kind, found, rfl, rfl, rfl⟩
    · rw [halters.server] at hsrv
      rw [halters.kind]
      exact (h.server index server before hbefore hsrv).imp id (kind_step hstep)
    · obtain ⟨-, hnone, hfound⟩ := opened_step hstep
      obtain ⟨other, hother, hkind, -⟩ := hfound server hsrv
      refine ⟨by_contra fun hne => ?_, kind_step hstep ⟨other, hother, hkind⟩⟩
      rw [show found = none from hnone hne] at hsrv
      cases hsrv
  · rcases closes_step hstep hmem with hmem | hconn
    · exact kind_step hstep (h.closes index hmem)
    · exact kind_step hstep hconn
  · obtain ⟨entries, hsubmits, -, hsubm⟩ := submits_step h.standing hstep
    rw [hsubm] at hmem
    rcases List.mem_append.mp hmem with hmem | hmem
    -- What was in flight keeps its channel and its class.
    · have hmem : submission ∈ state.submitted := by
        unfold remaining at hmem
        split at hmem
        · exact List.mem_of_mem_eraseIdx hmem
        · exact hmem
      have hbefore := List.getElem?_eq_getElem (h.standing.submitted submission hmem)
      rw [kind_eq hstep hbefore hchan]
      exact h.submitted submission hmem _ hbefore
    · cases hsubmits with
      | none => cases hmem
      | connect haction hbefore hkind =>
        obtain rfl := List.mem_singleton.mp hmem
        exact ⟨rfl, (kind_eq hstep hbefore hchan).trans hkind⟩
      | buffers hadv hbefore =>
        obtain ⟨entry, -, rfl⟩ := List.mem_map.mp hmem
        rw [kind_eq hstep hbefore hchan]
        exact h.event_advances hstep hadv hbefore
  · rcases waiting_step h.standing hstep hmem with hmem | hcalls
    · have hbefore := List.getElem?_eq_getElem (h.standing.waiting call hmem)
      rw [kind_eq hstep hbefore hchan]
      exact h.waiting call hmem _ hbefore
    · cases hcalls with
      | call full hbefore hkind =>
        rw [kind_eq hstep hbefore hchan]
        exact event_calls (.call full hbefore hkind) hbefore

end State.Linked

theorem State.linked_create (capacity : ℕ) : Linked (State.create capacity) where
  standing := standing_create capacity
  server _ _ _ h := by cases h
  closes _ h := by cases h
  submitted _ h := by cases h
  waiting _ h := by cases h

/-- A server that is beyond its connections has no operation of theirs to come. -/
def State.Served (state : State) : Prop :=
  ∀ (index server : ℕ) (connection channel : Channel), state.channels[index]? = some connection →
    connection.server = some server → state.channels[server]? = some channel →
      channel.stage.beyond = true → connection.pending ≤ 0

/-- The connections of a server whose `close` goes on have no operation to come. -/
def State.AwaitsConnections (state : State) (action : Action) : Prop :=
  ∀ (index server : ℕ) (connection : Channel), action = .closedConnections server →
    state.channels[index]? = some connection → connection.server = some server →
      connection.pending ≤ 0

theorem State.Served.step (h : Served state) (hlinked : Linked state)
    (hawaits : AwaitsConnections state action) (hstep : Transport.step state action = some next) :
    Served next := by
  intro index server connection channel hconn hsrv hchan hbeyond
  rcases before_step hstep hconn with ⟨before, hbefore, halters⟩ | ⟨kind, found, -, -, rfl⟩
  · rw [halters.server] at hsrv
    obtain ⟨hkind, other, hother, hotherKind⟩ := hlinked.server index server before hbefore hsrv
    obtain ⟨after, hafter, halterSrv⟩ := alters_step hstep hother
    obtain rfl := Option.some.inj (hchan.symm.trans hafter)
    have hsound := hlinked.standing.channels server other hother
    -- A connection of a server that closes takes nothing new on.
    have hle (hpend : before.pending ≤ 0) (hstage : other.stage ≠ .opened) :
        connection.pending ≤ 0 := by
      refine (halters.pending_le ?_ ?_).trans hpend
      · unfold isClosing
        rw [hsrv, Option.bind_some, hother, Option.any_some, hsound.opened hstage, Bool.or_true]
      · rw [hkind]
        exact nofun
    rcases halterSrv.beyond hotherKind hbeyond with hbefore' | rfl
    · exact hle (h index server before other hbefore hsrv hother hbefore')
        fun hstage => by rw [hstage] at hbefore'; cases hbefore'
    -- The server awaits its connections before it goes on.
    · refine hle (hawaits index server before rfl hbefore hsrv) fun hstage => ?_
      rw [Transport.step, hother] at hstep
      dsimp only at hstep
      rw [hstage] at hstep
      cases hstep
  · exact le_rfl

end FengShui.Transport
