import FengShui.Transport.Initialization

/-!
# What a failed initialization leaves behind

`Initialized` is all that a native function can come to. The factory reports the failure and leaves
nothing behind where there was no socket (`reported_iff`), and nowhere else: a refused option leaves
the descriptor open, and behind `bind` and `listen` another error is thrown.
-/

namespace FengShui.Transport

open List

/-! ## What an attempt comes to -/

namespace Traced

/-- A call on a descriptor that neither opens nor closes one. -/
def asks (traced : Traced) : Bool :=
  match traced.call with
  | .getFlags _ | .setFlags .. | .setsockopt .. | .bind .. | .listen .. => true
  | .socket _ | .shutdownDescriptor _ | .destroy | .register _ => false

/-- A `setsockopt` on the descriptor, for an option whose bit is not in an `int8_t`. -/
def unseen (fd : ℤ) (traced : Traced) : Bool :=
  match traced.call with
  | .setsockopt other option _ => decide (other = fd) && decide (7 < option.bit)
  | _ => false

end Traced

/-- The bits of the flags are in an `int8_t`. -/
def Setting.Seen : Setting → Prop
  | flag option _ => option.bit ≤ 7
  | value .. => True

variable {kernel : Kernel} {trace : List Traced}

theorem setOption_spec (kernel : Kernel) (fd : ℤ) {setting : Setting} (hseen : setting.Seen)
    (trace : List Traced) :
    ∃ calls, (setOption kernel fd setting trace).2 = trace ++ calls ∧
      (∀ traced ∈ calls, traced.asks = true) ∧
      (∀ traced ∈ calls, ∀ other,
        traced.unseen other = true ↔ fd = other ∧ 7 < setting.option.bit) ∧
      ((setOption kernel fd setting trace).1 = true ↔
        ∀ traced ∈ calls, traced.refused = false) := by
  cases setting with
  | value option value =>
    refine ⟨[⟨.setsockopt fd option value, kernel.answer trace (.setsockopt fd option value)⟩], rfl,
      fun traced htr => mem_singleton.mp htr ▸ rfl, fun traced htr other => ?_, ?_⟩
    · obtain rfl := mem_singleton.mp htr
      simp only [Traced.unseen, Bool.and_eq_true, decide_eq_true_eq, Setting.option]
    simp only [setOption, Kernel.call, mem_singleton, forall_eq, Traced.refused, ne_eq,
      decide_not, Bool.not_eq_false']
    exact Iff.rfl
  | flag option flag =>
    have hbit : ¬7 < option.bit := Nat.not_lt.mpr hseen
    -- A flag is read before it is set, and either call may be refused.
    by_cases hflags : kernel.answer trace (.getFlags fd) < 0
    · have hset : setOption kernel fd (.flag option flag) trace =
          (false, (kernel.call (.getFlags fd) trace).2) := if_pos hflags
      rw [hset]
      refine ⟨[⟨.getFlags fd, kernel.answer trace (.getFlags fd)⟩], rfl,
        fun traced htr => mem_singleton.mp htr ▸ rfl, fun traced htr other => ?_, ?_⟩
      · obtain rfl := mem_singleton.mp htr
        exact iff_of_false Bool.false_ne_true fun h => hbit h.2
      simp only [mem_singleton, forall_eq, Traced.refused, decide_eq_true hflags,
        Bool.false_eq_true, Bool.true_eq_false]
    · have hset : setOption kernel fd (.flag option flag) trace =
          (!decide
            ((kernel.call (.setFlags fd ((kernel.answer trace (.getFlags fd)).toNat ||| flag))
            (kernel.call (.getFlags fd) trace).2).1 < 0),
          (kernel.call (.setFlags fd ((kernel.answer trace (.getFlags fd)).toNat ||| flag))
            (kernel.call (.getFlags fd) trace).2).2) := if_neg hflags
      rw [hset]
      refine ⟨[⟨.getFlags fd, kernel.answer trace (.getFlags fd)⟩,
        ⟨.setFlags fd ((kernel.answer trace (.getFlags fd)).toNat ||| flag), _⟩],
        append_assoc _ _ _, fun traced htr => ?_, fun traced htr other => ?_, ?_⟩
      · simp only [mem_cons, not_mem_nil, or_false] at htr
        rcases htr with rfl | rfl <;> rfl
      · simp only [mem_cons, not_mem_nil, or_false] at htr
        rcases htr with rfl | rfl <;> exact iff_of_false Bool.false_ne_true fun h => hbit h.2
      · simp only [mem_cons, not_mem_nil, or_false, forall_eq_or_imp, forall_eq,
          Traced.refused, decide_eq_false hflags, true_and, Bool.not_eq_true', Kernel.call]
        exact Iff.rfl

/-- The options of a socket: all are set, or one is refused and the others are not tried. -/
theorem setOptions_spec (kernel : Kernel) (fd : ℤ) {settings : List Setting}
    (hseen : ∀ setting ∈ settings, setting.Seen) (trace : List Traced) :
    ∃ calls, (setOptions kernel fd settings trace).2 = trace ++ calls ∧
      (∀ traced ∈ calls, traced.asks = true) ∧
      ((setOptions kernel fd settings trace).1 = fd ∧ (∀ traced ∈ calls, traced.refused = false) ∨
        ∃ option : SocketOption, (setOptions kernel fd settings trace).1 = -2 ^ option.bit ∧
          (∀ traced ∈ calls, traced.refused = true → ∀ other,
            (traced.unseen other = true ↔ fd = other ∧ 7 < option.bit)) ∧
          ∃ traced ∈ calls, traced.refused = true) := by
  induction settings generalizing trace with
  | nil =>
    exact ⟨[], (append_nil _).symm, nofun,
      .inl ⟨rfl, nofun⟩⟩
  | cons setting settings ih =>
    obtain ⟨first, htrace, hasks, hunseen, hdone⟩ :=
      setOption_spec kernel fd (hseen setting mem_cons_self) trace
    simp only [setOptions]
    -- The first option that is refused ends it, with its bit for the descriptor.
    by_cases hset : (setOption kernel fd setting trace).1 = true
    · rw [if_pos hset]
      obtain ⟨rest, hrest, hrestAsks, hcases⟩ :=
        ih (fun other hother => hseen other (mem_cons_of_mem _ hother))
          (setOption kernel fd setting trace).2
      refine ⟨first ++ rest, by rw [hrest, htrace, append_assoc], fun traced htr => ?_, ?_⟩
      · exact (mem_append.mp htr).elim (hasks traced) (hrestAsks traced)
      · rcases hcases with ⟨hfd, hnone⟩ | ⟨option, hbit, hrestUnseen, traced, htr, hrefused⟩
        · exact .inl ⟨hfd, fun traced htr =>
            (mem_append.mp htr).elim (hdone.mp hset traced) (hnone traced)⟩
        · refine .inr ⟨option, hbit, fun other hother hfails => ?_, traced,
            mem_append_right _ htr, hrefused⟩
          rcases mem_append.mp hother with hother | hother
          · rw [hdone.mp hset other hother] at hfails
            cases hfails
          · exact hrestUnseen other hother hfails
    · rw [if_neg hset]
      refine ⟨first, htrace, hasks,
        .inr ⟨setting.option, rfl, fun traced htr _ => hunseen traced htr, ?_⟩⟩
      by_contra hnone
      refine hset (hdone.mpr fun traced htr => ?_)
      by_contra hrefused
      exact hnone ⟨traced, htr, Bool.not_eq_false _ ▸ hrefused⟩

/-- Of the refused options, those up to bit 7 are seen in the `int8_t`. -/
theorem seen_iff (option : SocketOption) :
    (-2 ^ option.bit : ℤ).bmod (2 ^ 8) < 0 ↔ option.bit ≤ 7 := by
  cases option <;> decide

/-- What the `initialize` functions come to. -/
inductive Initialized (kernel : Kernel) (calls : ℤ → List NativeCall) (trace : List Traced) :
    Native × List Traced → Prop
  /-- There is no socket. -/
  | noSocket (kind : SocketKind) :
    Initialized kernel calls trace (⟨0, -1⟩, trace ++ [⟨.socket kind, -1⟩])
  /-- An option is refused: the structure does not have the descriptor. -/
  | noOption {kind : SocketKind} {fd : ℤ} {traces : List Traced} (option : SocketOption)
      (hsocket : kernel.answer trace (.socket kind) = fd) (hfd : 0 ≤ fd ∧ fd < 2 ^ 31)
      (hasks : ∀ traced ∈ traces, traced.asks = true)
      (hunseen : ∀ traced ∈ traces, traced.refused = true →
        ∀ other, (traced.unseen other = true ↔ fd = other ∧ 7 < option.bit))
      (hrefused : ∃ traced ∈ traces, traced.refused = true) :
    Initialized kernel calls trace
      (⟨0, (-2 ^ option.bit : ℤ).bmod (2 ^ 8)⟩, trace ++ ⟨.socket kind, fd⟩ :: traces)
  /-- `bind` or `listen` is refused. -/
  | noCall {kind : SocketKind} {fd : ℤ} {traces : List Traced} (hcalls : calls fd ≠ [])
      (hsocket : kernel.answer trace (.socket kind) = fd) (hfd : 0 ≤ fd ∧ fd < 2 ^ 31)
      (hasks : ∀ traced ∈ traces, traced.asks = true)
      (hrefused : ∃ traced ∈ traces, traced.refused = true) :
    Initialized kernel calls trace (⟨fd, -1⟩, trace ++ ⟨.socket kind, fd⟩ :: traces)
  | complete {kind : SocketKind} {fd : ℤ} {traces : List Traced}
      (hsocket : kernel.answer trace (.socket kind) = fd) (hfd : 0 ≤ fd ∧ fd < 2 ^ 31)
      (hasks : ∀ traced ∈ traces, traced.asks = true)
      (hdone : ∀ traced ∈ traces, traced.refused = false) :
    Initialized kernel calls trace (⟨fd, 0⟩, trace ++ ⟨.socket kind, fd⟩ :: traces)

/-- `bind` and `listen` answer -1 where they are refused. -/
def Binds (kernel : Kernel) (call : NativeCall) : Prop :=
  (∀ answer, (⟨call, answer⟩ : Traced).asks = true ∧
    ((⟨call, answer⟩ : Traced).refused = true ↔ answer < 0)) ∧
    ∀ trace, kernel.answer trace call = 0 ∨ kernel.answer trace call = -1

theorem binds_bind (kernel : Kernel) (fd : ℤ) (address : SocketAddress) :
    Binds kernel (.bind fd address) :=
  ⟨fun _ => ⟨rfl, decide_eq_true_iff⟩, fun trace => kernel.bind trace fd address⟩

theorem binds_listen (kernel : Kernel) (fd maxConnections : ℤ) :
    Binds kernel (.listen fd maxConnections) :=
  ⟨fun _ => ⟨rfl, decide_eq_true_iff⟩, fun trace => kernel.listen trace fd maxConnections⟩

/-- The calls behind the socket: all succeed, or one is refused. -/
theorem callAll_spec (kernel : Kernel) (fd : ℤ) {calls : List NativeCall}
    (hbinds : ∀ call ∈ calls, Binds kernel call) (trace : List Traced) :
    ∃ traces, (callAll kernel ⟨fd, 0⟩ calls trace).2 = trace ++ traces ∧
      (∀ traced ∈ traces, traced.asks = true) ∧
      ((callAll kernel ⟨fd, 0⟩ calls trace).1 = ⟨fd, 0⟩ ∧
          (∀ traced ∈ traces, traced.refused = false) ∨
        (callAll kernel ⟨fd, 0⟩ calls trace).1 = ⟨fd, -1⟩ ∧
          ∃ traced ∈ traces, traced.refused = true) := by
  induction calls generalizing trace with
  | nil =>
    exact ⟨[], (append_nil _).symm, nofun,
      .inl ⟨rfl, nofun⟩⟩
  | cons call calls ih =>
    obtain ⟨hcall, hans⟩ := hbinds call mem_cons_self
    obtain ⟨hasks, hrefused⟩ := hcall (kernel.answer trace call)
    obtain ⟨rest, hrest, hrestAsks, hcases⟩ :=
      ih (fun other hother => hbinds other (mem_cons_of_mem _ hother))
        (kernel.call call trace).2
    -- `bind` and `listen` give zero or minus one.
    rcases hans trace with hzero | hminus
    · have hnot : ¬kernel.answer trace call < 0 := by omega
      have hgoes : callAll kernel ⟨fd, 0⟩ (call :: calls) trace =
          callAll kernel ⟨fd, 0⟩ calls (kernel.call call trace).2 := if_neg hnot
      have hfine : (⟨call, kernel.answer trace call⟩ : Traced).refused = false :=
        Bool.eq_false_iff.mpr fun h => hnot (hrefused.mp h)
      rw [hgoes]
      refine ⟨⟨call, kernel.answer trace call⟩ :: rest, ?_, ?_, ?_⟩
      · rw [hrest]
        exact append_assoc _ _ _
      · exact forall_mem_cons.mpr ⟨hasks, hrestAsks⟩
      · rcases hcases with ⟨hsame, hnone⟩ | ⟨hfail, traced, htr, hone⟩
        · exact .inl ⟨hsame, forall_mem_cons.mpr ⟨hfine, hnone⟩⟩
        · exact .inr ⟨hfail, traced, mem_cons_of_mem _ htr, hone⟩
    · have hneg : kernel.answer trace call < 0 := by omega
      have hstops : callAll kernel ⟨fd, 0⟩ (call :: calls) trace =
          (Native.fail (kernel.answer trace call) ⟨fd, 0⟩, (kernel.call call trace).2) :=
            if_pos hneg
      rw [hstops]
      refine ⟨[⟨call, kernel.answer trace call⟩], rfl, forall_mem_singleton.mpr hasks,
        .inr ⟨?_, _, mem_singleton_self _, hrefused.mpr hneg⟩⟩
      rw [hminus]
      rfl

variable {fd : ℤ} {kind : SocketKind}

/-- A descriptor keeps its value in an `int32_t`. -/
theorem bmod_fd (h : 0 ≤ fd ∧ fd < 2 ^ 31) : fd.bmod (2 ^ 32) = fd :=
  Int.bmod_eq_of_le (by omega) (by omega)

theorem initializeNative_spec (kernel : Kernel) (kind : SocketKind) {settings : List Setting}
    (hseen : ∀ setting ∈ settings, setting.Seen) {calls : ℤ → List NativeCall}
    (hbinds : ∀ fd, ∀ call ∈ calls fd, Binds kernel call) (trace : List Traced) :
    Initialized kernel calls trace
      (initializeNative kernel (createSocket kernel kind settings) calls trace) := by
  rcases kernel.socket trace kind with hsocket | ⟨hnonneg, hlt⟩
  · have hnone : createSocket kernel kind settings trace = (-1, trace ++ [⟨.socket kind, -1⟩]) := by
      simp only [createSocket, Kernel.call, hsocket, if_true]
    have hinit : initializeNative kernel (createSocket kernel kind settings) calls trace =
        (⟨0, -1⟩, trace ++ [⟨.socket kind, -1⟩]) := by
      simp only [initializeNative, hnone]
      exact if_pos (by decide)
    rw [hinit]
    exact .noSocket kind
  · generalize hans : kernel.answer trace (.socket kind) = fd at hnonneg hlt
    have hcreate : createSocket kernel kind settings trace =
        setOptions kernel fd settings (trace ++ [⟨.socket kind, fd⟩]) := by
      simp only [createSocket, Kernel.call, hans]
      exact if_neg (by omega)
    obtain ⟨set, htrace, hasks, hcases⟩ :=
      setOptions_spec kernel fd hseen (trace ++ [⟨.socket kind, fd⟩])
    rw [append_assoc] at htrace
    -- The descriptor is known only where all options are set.
    rcases hcases with ⟨hfd, hdone⟩ | ⟨option, hbit, hunseen, hrefused⟩
    · have hinit : initializeNative kernel (createSocket kernel kind settings) calls trace =
          callAll kernel ⟨fd, 0⟩ (calls fd) (trace ++ ([⟨.socket kind, fd⟩] ++ set)) := by
        simp only [initializeNative, hcreate, hfd, htrace, bmod_fd ⟨hnonneg, hlt⟩]
        exact if_neg (by omega)
      obtain ⟨rest, hrest, hrestAsks, hrestCases⟩ :=
        callAll_spec kernel fd (hbinds fd) (trace ++ ([⟨.socket kind, fd⟩] ++ set))
      have hall : (callAll kernel ⟨fd, 0⟩ (calls fd) (trace ++ ([⟨.socket kind, fd⟩] ++ set))).2 =
          trace ++ ⟨.socket kind, fd⟩ :: (set ++ rest) := by
        rw [hrest, append_assoc, append_assoc]
        rfl
      have hboth : ∀ traced ∈ set ++ rest, traced.asks = true := fun traced htr =>
        (mem_append.mp htr).elim (hasks traced) (hrestAsks traced)
      rw [hinit]
      rcases hrestCases with ⟨hnative, hnone⟩ | ⟨hnative, traced, htr, hone⟩
      · rw [← Prod.eta (callAll _ _ _ _), hnative, hall]
        exact .complete hans ⟨hnonneg, hlt⟩ hboth fun traced htr =>
          (mem_append.mp htr).elim (hdone traced) (hnone traced)
      · rw [← Prod.eta (callAll _ _ _ _), hnative, hall]
        have hcalls : calls fd ≠ [] := by
          intro hnil
          rw [hnil, callAll] at hnative
          cases congrArg Native.initializationError hnative
        exact .noCall hcalls hans ⟨hnonneg, hlt⟩ hboth
          ⟨traced, mem_append_right _ htr, hone⟩
    -- The bit of the option comes in the place of the descriptor.
    · have hneg : (-2 ^ option.bit : ℤ) < 0 := Int.neg_neg_of_pos (Int.pow_pos (by decide))
      have hinit : initializeNative kernel (createSocket kernel kind settings) calls trace =
          (Native.zero.fail (-2 ^ option.bit), trace ++ ([⟨.socket kind, fd⟩] ++ set)) := by
        simp only [initializeNative, hcreate, hbit, htrace]
        exact if_pos hneg
      rw [hinit]
      exact .noOption option hans ⟨hnonneg, hlt⟩ hasks hunseen hrefused

namespace Factory

variable {factory : Factory} {configuration : SocketConfiguration}

/-- The label of its messages. -/
def label : Factory → String
  | tcpClient | udpClient .. | unixStreamClient => "client"
  | tcpServer .. | udpServer .. | unixStreamServer _ => "server"

/-- The calls behind its socket. -/
def calls (configuration : SocketConfiguration) : Factory → ℤ → List NativeCall
  | tcpClient, _ | unixStreamClient, _ => []
  | udpClient ip port, fd | udpServer ip port, fd => [.bind fd (.inet ip port)]
  | tcpServer ip port, fd =>
    [.bind fd (.inet ip port), .listen fd configuration.socketMaxConnections]
  | unixStreamServer path, fd =>
    [.bind fd (.unix path), .listen fd configuration.socketMaxConnections]

theorem seen_asked {flags : ℕ} {settings : List Setting} (h : ∀ setting ∈ settings, setting.Seen) :
    ∀ setting ∈ asked flags settings, setting.Seen :=
  fun setting hsetting => h setting (mem_filter.mp hsetting).1

/-- Every factory checks what its native function comes to. -/
theorem initialized_spec (kernel : Kernel) (configuration : SocketConfiguration) (factory : Factory)
    (trace : List Traced) :
    ∃ opening, Initialized kernel (factory.calls configuration) trace opening ∧
      factory.initialized kernel configuration trace = openNative factory.label opening := by
  have hnone : ∀ call ∈ ([] : List NativeCall), Binds kernel call := nofun
  have hbind (fd : ℤ) (address : SocketAddress) :
      ∀ call ∈ [NativeCall.bind fd address], Binds kernel call :=
    forall_mem_singleton.mpr (binds_bind kernel fd address)
  have hlisten (fd maxConnections : ℤ) (address : SocketAddress) :
      ∀ call ∈ [NativeCall.bind fd address, .listen fd maxConnections], Binds kernel call :=
    forall_mem_cons.mpr ⟨binds_bind kernel fd address,
      forall_mem_singleton.mpr (binds_listen kernel fd maxConnections)⟩
  have htcp : ∀ setting ∈ configuration.tcpSettings, setting.Seen :=
    seen_asked (by simp [Setting.Seen, SocketOption.bit])
  have hudp : ∀ setting ∈ configuration.udpSettings, setting.Seen := by
    unfold SocketConfiguration.udpSettings
    simp only [forall_mem_append]
    refine ⟨⟨seen_asked ?_, ?_⟩, seen_asked ?_⟩ <;> simp [Setting.Seen, SocketOption.bit]
  have hunix : ∀ setting ∈ configuration.unixStreamSettings, setting.Seen :=
    seen_asked (by simp [Setting.Seen, SocketOption.bit])
  -- Clients of tcp and unix streams call nothing behind the options.
  cases factory with
  | tcpClient => exact ⟨_, initializeNative_spec kernel .tcp htcp (fun _ => hnone) trace, rfl⟩
  | udpClient ip port =>
    exact ⟨_, initializeNative_spec kernel .udp hudp (fun fd => hbind fd _) trace, rfl⟩
  | unixStreamClient =>
    exact ⟨_, initializeNative_spec kernel .unixStream hunix (fun _ => hnone) trace, rfl⟩
  | tcpServer ip port =>
    exact ⟨_, initializeNative_spec kernel .tcp htcp (fun fd => hlisten fd _ _) trace, rfl⟩
  | udpServer ip port =>
    exact ⟨_, initializeNative_spec kernel .udp hudp (fun fd => hbind fd _) trace, rfl⟩
  | unixStreamServer path =>
    exact ⟨_, initializeNative_spec kernel .unixStream hunix (fun fd => hlisten fd _ _) trace, rfl⟩

end Factory

/-! ## A failed initialization -/

/-- A failed initialization is reported and leaves nothing behind: the factory throws its exception,
nothing is registered, what the attempt opened is closed once and nothing else is, and the native
structure is freed once. -/
structure Reported (attempt : Except Thrown Native × List Traced) : Prop where
  thrown : ∃ message, attempt.1 = .error (.initialization message)
  unregistered : ∀ traced ∈ attempt.2, ∀ fd, traced.call ≠ .register fd
  closed : ∀ fd, closings fd attempt.2 = (opened attempt.2).count fd
  freed : (attempt.2.countP fun traced => traced.call = .destroy) = 1

namespace Traced

variable {traced : Traced} (h : traced.asks = true)

include h

theorem not_isSocket_of_asks : traced.isSocket = false := by
  obtain ⟨call, answer⟩ := traced
  cases call <;> first | rfl | cases h

theorem call_ne_of_asks {call : NativeCall}
    (hcall : ∀ answer, (⟨call, answer⟩ : Traced).asks = false) : traced.call ≠ call := by
  rintro rfl
  rw [hcall traced.answer] at h
  cases h

end Traced

section Asks

variable {calls : List Traced} (h : ∀ traced ∈ calls, traced.asks = true)

include h

theorem opened_of_asks : opened calls = [] := by
  unfold opened
  rw [map_eq_nil_iff, filter_eq_nil_iff]
  intro traced htr
  rw [Traced.not_isSocket_of_asks (h traced htr), Bool.false_and]
  exact Bool.false_ne_true

theorem closings_of_asks (fd : ℤ) : closings fd calls = 0 := by
  unfold closings
  rw [countP_eq_zero]
  intro traced htr hcloses
  exact Traced.call_ne_of_asks (h traced htr) (fun _ => rfl) (of_decide_eq_true hcloses)

end Asks

theorem opened_append (front back : List Traced) :
    opened (front ++ back) = opened front ++ opened back := by
  unfold opened
  rw [filter_append, map_append]

theorem closings_append (fd : ℤ) (front back : List Traced) :
    closings fd (front ++ back) = closings fd front + closings fd back := countP_append

/-- What an attempt has opened when its native function is through. -/
theorem opened_socket {calls : List Traced} (hfd : 0 ≤ fd)
    (hasks : ∀ traced ∈ calls, traced.asks = true) :
    opened (⟨.socket kind, fd⟩ :: calls) = [fd] := by
  have hdone : (⟨.socket kind, fd⟩ : Traced).refused = false :=
    decide_eq_false (show ¬fd = -1 by omega)
  have hhead : opened [⟨.socket kind, fd⟩] = [fd] := by
    unfold opened
    rw [filter_cons_of_pos (by rw [hdone]; rfl)]
    rfl
  have happend := opened_append [⟨.socket kind, fd⟩] calls
  rw [hhead, opened_of_asks hasks, append_nil] at happend
  exact happend

theorem closings_socket {answer : ℤ} {calls : List Traced}
    (hasks : ∀ traced ∈ calls, traced.asks = true) :
    closings fd (⟨.socket kind, answer⟩ :: calls) = 0 := by
  have happend := closings_append fd [⟨.socket kind, answer⟩] calls
  rw [closings_of_asks hasks] at happend
  exact happend

/-- No socket was refused. -/
theorem not_refused_socket {calls rest : List Traced} (hfd : 0 ≤ fd)
    (hasks : ∀ traced ∈ calls, traced.asks = true)
    (hrest : ∀ traced ∈ rest, traced.isSocket = false) :
    ¬∃ traced ∈ [] ++ ⟨.socket kind, fd⟩ :: calls ++ rest,
      traced.isSocket = true ∧ traced.refused = true := by
  rintro ⟨traced, htr, hsocket, hrefused⟩
  rcases mem_append.mp htr with hcall | hmore
  · rcases mem_cons.mp hcall with rfl | hcall
    · have hminus : fd = -1 := of_decide_eq_true hrefused
      omega
    · rw [Traced.not_isSocket_of_asks (hasks traced hcall)] at hsocket
      cases hsocket
  · rw [hrest traced hmore] at hsocket
    cases hsocket

/-- An attempt that opened a descriptor and did not close it. -/
theorem not_reported_of_open {calls rest : List Traced} {result : Except Thrown Native}
    (hfd : 0 ≤ fd) (hasks : ∀ traced ∈ calls, traced.asks = true) (hopened : opened rest = [])
    (hclosings : closings fd rest = 0) :
    ¬Reported (result, [] ++ ⟨.socket kind, fd⟩ :: calls ++ rest) := by
  intro hreported
  have hclosed := hreported.closed fd
  dsimp only at hclosed
  rw [nil_append, closings_append, closings_socket hasks, hclosings, opened_append,
    opened_socket hfd hasks, hopened, append_nil, count_singleton_self] at hclosed
  cases hclosed

/-- The factory reports the failure just of an attempt that got no socket: an option that is refused
leaves the descriptor open, and above bit 7 is not even seen, and behind `bind` and `listen` the
text of the exception cannot be made. -/
theorem reported_iff (factory : Factory) (kernel : Kernel) (configuration : SocketConfiguration)
    (hfails : ∃ traced ∈ (factory.initialized kernel configuration []).2, traced.refused = true) :
    Reported (factory.initialized kernel configuration []) ↔
      ∃ traced ∈ (factory.initialized kernel configuration []).2,
        traced.isSocket = true ∧ traced.refused = true := by
  obtain ⟨opening, hopening, heq⟩ := factory.initialized_spec kernel configuration []
  rw [heq] at hfails ⊢
  cases hopening with
  | noSocket kind =>
    refine iff_of_true ⟨⟨_, rfl⟩, ?_, fun fd => rfl, rfl⟩
      ⟨⟨.socket kind, -1⟩, List.mem_cons_self, rfl, rfl⟩
    intro traced htraced fd
    change traced ∈ [⟨.socket kind, -1⟩, ⟨.destroy, 0⟩] at htraced
    simp only [List.mem_cons, List.not_mem_nil, or_false] at htraced
    rcases htraced with rfl | rfl <;> exact nofun
  | @noOption kind fd calls option _ hfd hasks _ hrefused =>
    unfold openNative
    dsimp only
    by_cases hseen : (-2 ^ option.bit : ℤ).bmod (2 ^ 8) < 0
    · -- The structure has no descriptor to close.
      rw [if_pos hseen, if_neg (by decide)]
      exact iff_of_false (not_reported_of_open hfd.1 hasks rfl rfl)
        (not_refused_socket hfd.1 hasks (List.forall_mem_singleton.mpr rfl))
    · rw [if_neg hseen]
      refine iff_of_false (fun hreported => ?_)
        (not_refused_socket hfd.1 hasks (List.forall_mem_singleton.mpr rfl))
      obtain ⟨message, hthrown⟩ := hreported.thrown
      cases hthrown
  | @noCall kind fd calls _ _ hfd hasks hrefused =>
    unfold openNative
    dsimp only
    rw [if_pos (by decide)]
    by_cases hpos : 0 < fd
    · -- `SystemErrors.of` has no error for -1.
      rw [if_pos hpos]
      refine iff_of_false (fun hreported => ?_) (not_refused_socket hfd.1 hasks ?_)
      · obtain ⟨message, hthrown⟩ := hreported.thrown
        unfold TransportMessages.error at hthrown
        rw [SystemErrors.of_neg (by decide)] at hthrown
        cases hthrown
      · exact List.forall_mem_cons.mpr ⟨rfl, List.forall_mem_singleton.mpr rfl⟩
    · rw [if_neg hpos]
      exact iff_of_false (not_reported_of_open hfd.1 hasks rfl rfl)
        (not_refused_socket hfd.1 hasks (List.forall_mem_singleton.mpr rfl))
  | @complete kind fd calls _ hfd hasks hdone =>
    obtain ⟨traced, htraced, hrefused⟩ := hfails
    change traced ∈ ⟨.socket kind, fd⟩ :: calls ++ [⟨.register fd, 0⟩] at htraced
    rw [List.cons_append, List.mem_cons, List.mem_append, List.mem_singleton] at htraced
    rcases htraced with rfl | hcall | rfl
    -- A run in which nothing was refused has not failed.
    · have hminus : fd = -1 := of_decide_eq_true hrefused
      omega
    · rw [hdone traced hcall] at hrefused
      cases hrefused
    · cases hrefused

/-- The configuration that asks for these options, with all values 0. -/
def SocketConfiguration.ofFlags (flags : ℕ) : SocketConfiguration :=
  ⟨0, flags, 0, 0, 0, 0, 0, 0, 0, 0, 0, 0, 0, 0⟩

/-- A client that gets no socket. -/
theorem reported_iff_noSocket :
    Reported (Factory.tcpClient.initialized (.refusing fun _ => true) (.ofFlags 0) []) :=
  (reported_iff .tcpClient (.refusing fun _ => true) (.ofFlags 0)
    ⟨⟨.socket .tcp, -1⟩, List.mem_cons_self, rfl⟩).mpr
    ⟨⟨.socket .tcp, -1⟩, List.mem_cons_self, rfl, rfl⟩

/-- A client whose `SO_KEEPALIVE` is refused: bit 8 is not in an `int8_t`, and the client is
registered with descriptor 0. -/
theorem not_reported :
    ¬∀ (factory : Factory) (kernel : Kernel) (configuration : SocketConfiguration),
    (∃ traced ∈ (factory.initialized kernel configuration []).2, traced.refused = true) →
      Reported (factory.initialized kernel configuration []) := by
  intro h
  have hreported := h .tcpClient (.refusing fun call => call = .setsockopt 3 .socketKeepalive 1)
    (.ofFlags (2 ^ 8)) ⟨⟨.setsockopt 3 .socketKeepalive 1, -1⟩, by decide, rfl⟩
  obtain ⟨message, hthrown⟩ := hreported.thrown
  have hclient : (Factory.tcpClient.initialized
      (.refusing fun call => call = .setsockopt 3 .socketKeepalive 1) (.ofFlags (2 ^ 8)) []).1 =
      .ok ⟨0, 0⟩ := rfl
  rw [hclient] at hthrown
  cases hthrown

end FengShui.Transport
