import BrewServer.Registrations

/-!
# What an event can do to the registrations

Whatever happens to a server, its registrations change in five ways only: a
connection opens or closes, a SUB message is accepted, or a route is offered or
withdrawn over a loop-safe link. Everything else is aside.
-/

namespace BrewServer

open Protocol Fedroute Router Sip

/-- The mode of a connection that is not a virtual client of the SIP bridge. -/
def Inner.session (s : Inner) (c : ClientId) : Option ClientMode :=
  if isBridged s c then none else (s.clients[c]?).map (·.mode)

theorem isBridged_iff {s : Inner} {c : ClientId} :
    isBridged s c = true ↔ (s.clients[c]?).map Client.kind = some (.terminal, none) := by
  unfold isBridged Client.kind
  cases s.clients[c]? with
  | none => simp
  | some client =>
    simp only [Option.any_some, Option.map_some, Option.some.injEq, Prod.mk.injEq, Bool.and_eq_true, beq_iff_eq,
      Option.isNone_iff_eq_none]

theorem isBridged_congr {s s' : Inner} {c : ClientId}
    (h : (s'.clients[c]?).map Client.kind = (s.clients[c]?).map Client.kind) : isBridged s' c = isBridged s c := by
  rw [Bool.eq_iff_iff, isBridged_iff, isBridged_iff, h]

theorem session_congr {s s' : Inner} {c : ClientId}
    (h : (s'.clients[c]?).map Client.kind = (s.clients[c]?).map Client.kind) : s'.session c = s.session c := by
  have hm := congrArg (Option.map Prod.fst) h
  rw [Option.map_map, Option.map_map] at hm
  unfold Inner.session
  rw [isBridged_congr h]
  split
  · rfl
  · exact hm

theorem session_of_bridged {s : Inner} {c : ClientId} (h : isBridged s c = true) : s.session c = none :=
  if_pos h

theorem session_of_not_mem {s : Inner} {c : ClientId} (h : c ∉ s.clients) : s.session c = none := by
  unfold Inner.session
  rw [Std.ExtTreeMap.getElem?_eq_none h]
  split <;> rfl

/-- A step aside: virtual clients may have come and gone, the registrations stay
and no message carries one. -/
structure Aside (s s' : Inner) (sends : Sends) : Prop where
  table : SameTable s s'
  sessions : ∀ c : ClientId, s'.session c = s.session c
  held : QuietHeld s → QuietHeld s'
  quiet : QuietHeld s → sends.Quiet

namespace Aside

theorem refl (s : Inner) : Aside s s [] := ⟨SameTable.refl s, fun _ => rfl, id, fun _ => Sends.quiet_nil⟩

theorem trans {s s' s'' : Inner} {a b : Sends} (h : Aside s s' a) (h' : Aside s' s'' b) : Aside s s'' (a ++ b) :=
  ⟨h.table.trans h'.table, fun c => (h'.sessions c).trans (h.sessions c), fun hq => h'.held (h.held hq),
    fun hq => (h.quiet hq).append (h'.quiet (h.held hq))⟩

end Aside

/-- A handler's step aside: a virtual client may have joined. -/
structure Joining (s s' : Inner) (sends : Sends) : Prop where
  table : SameTable s s'
  kinds : ∀ c : ClientId, (s'.clients[c]?).map Client.kind = (s.clients[c]?).map Client.kind ∨
    (c ∉ s.clients ∧ isBridged s' c = true)
  held : QuietHeld s → QuietHeld s'
  quiet : QuietHeld s → sends.Quiet

theorem Passive.joining {s s' : Inner} {sends : Sends} (h : Passive s s' sends) : Joining s s' sends :=
  ⟨h.routes.toSameTable, fun c => .inl (h.routes.kinds c), h.held, h.quiet⟩

theorem Joining.aside {s s' : Inner} {sends : Sends} (h : Joining s s' sends) : Aside s s' sends := by
  refine ⟨h.table, fun c => ?_, h.held, h.quiet⟩
  rcases h.kinds c with hk | ⟨hno, hv⟩
  · exact session_congr hk
  · rw [session_of_bridged hv, session_of_not_mem hno]

theorem Joining.isBridged {s s' : Inner} {sends : Sends} (h : Joining s s' sends) {c : ClientId}
    (hc : isBridged s c = true) : isBridged s' c = true := by
  rcases h.kinds c with hk | ⟨-, hv⟩
  · rw [isBridged_congr hk, hc]
  · exact hv

theorem Passive.mem_clients {s s' : Inner} {sends : Sends} (h : Passive s s' sends) {c : ClientId} :
    c ∈ s'.clients ↔ c ∈ s.clients := by
  have hm := congrArg Option.isSome (h.routes.kinds c)
  rw [Option.isSome_map, Option.isSome_map] at hm
  rw [Std.ExtTreeMap.mem_iff_isSome_getElem?, Std.ExtTreeMap.mem_iff_isSome_getElem?, hm]

theorem Passive.trans_joining {s s' s'' : Inner} {a b : Sends} (h : Passive s s' a) (h' : Joining s' s'' b) :
    Joining s s'' (a ++ b) := by
  refine ⟨h.routes.toSameTable.trans h'.table, fun c => ?_, fun hq => h'.held (h.held hq),
    fun hq => (h.quiet hq).append (h'.quiet (h.held hq))⟩
  rcases h'.kinds c with hk | ⟨hno, hv⟩
  · exact .inl (hk.trans (h.routes.kinds c))
  · exact .inr ⟨fun hmem => hno (h.mem_clients.mpr hmem), hv⟩

section Packets

variable {cfg : Config} {env : Env} {s : Inner} {source : ClientId} {id : Uuid} {raw : Bytes}

theorem kind_virtualClientEntry : virtualClientEntry.kind = (.terminal, none) := rfl

/-- A virtual client joins, and only call tables change besides. -/
theorem joining_insertVirtual {s s' : Inner} {sends : Sends} {v : ClientId} (hv : v ∉ s.clients)
    (hc : s'.clients = s.clients.insert v virtualClientEntry) (hs : s'.subscribers = s.subscribers)
    (hf : s'.fed = s.fed) (hd : s'.sdsRoutes = s.sdsRoutes) (hq : sends.Quiet) : Joining s s' sends := by
  refine ⟨⟨hs, by rw [hf], by rw [hf], by rw [hf], by rw [hf]⟩, fun c => ?_,
    fun h id r hdr hr => h id r hdr (hd ▸ hr), fun _ => hq⟩
  by_cases hvc : v = c
  · refine .inr ⟨hvc ▸ hv, isBridged_iff.mpr ?_⟩
    rw [hc, FinMap.getElem?_insert, if_pos hvc, Option.map_some, kind_virtualClientEntry]
  · refine .inl ?_
    rw [hc, FinMap.getElem?_insert, if_neg hvc]

theorem joining_placeOutbound {callId : String} {v : ClientId} (hv : v ∉ s.clients) :
    Joining s (placeOutbound env s source id callId v).inner (placeOutbound env s source id callId v).sends :=
  joining_insertVirtual hv rfl rfl rfl rfl (Sends.quiet_send (quiet_cons (by decide) (by decide)))

/-- A private setup is passive unless it is placed to SIP. -/
theorem handlePrivateSetup_cases (payload : CallPayload) :
    ((handlePrivateSetup env s source id payload raw).placed = none ∧
        (NotRegistration raw → Passive s (handlePrivateSetup env s source id payload raw).inner
          (handlePrivateSetup env s source id payload raw).sends)) ∨
      ∃ (callId : String) (v : ClientId) (src : UInt32), env.sip = .placed callId v ∧
        handlePrivateSetup env s source id payload raw =
          placeOutbound env (noteCall s id src source env.now) source id callId v := by
  unfold handlePrivateSetup
  split
  · exact .inl ⟨rfl, fun _ => .refl s⟩
  · next req _ =>
    split
    · exact .inl ⟨rfl, fun _ => .refl s⟩
    · dsimp only
      split
      · exact .inl ⟨rfl, fun _ => passive_noteCall.trans (.sends_only quiet_rejectSetup)⟩
      · split
        · unfold offerToSip
          split
          · exact .inl ⟨rfl, fun _ => passive_noteCall.trans (.sends_only quiet_rejectSetup)⟩
          · exact .inl ⟨rfl, fun _ => passive_noteCall⟩
          · next callId v hsip => exact .inr ⟨callId, v, req.source, hsip, rfl⟩
        · split
          · refine .inl ⟨rfl, fun _ => ?_⟩
            split
            · exact passive_noteCall
            · exact passive_noteCall.trans (.sends_only quiet_rejectSetup)
          · exact .inl ⟨rfl, fun hraw => passive_noteCall.trans (passive_connectPrivate hraw)⟩

theorem joining_callControl {cc : CallControlMessage} (hraw : NotRegistration raw) (hsip : env.sip.Fresh s) :
    Joining s (callControl cfg env s source cc raw).inner (callControl cfg env s source cc raw).sends := by
  unfold callControl
  split
  · exact (passive_handleGroupTx hraw).joining
  · split
    · exact (passive_handleSdsHeader hraw).joining
    · split
      · rcases @handlePrivateSetup_cases env s source cc.identifier raw cc.payload with
          ⟨-, h⟩ | ⟨callId, v, src, hp, heq⟩
        · exact (h hraw).joining
        · rw [heq]
          rw [hp] at hsip
          exact passive_noteCall.trans_joining (joining_placeOutbound hsip)
      · split
        · exact (passive_routePrivateControl hraw).joining
        · split
          · exact (passive_endCall hraw.quiet).joining
          · exact (Passive.refl s).joining

/-- What a packet can do, where `A` relates the ends of a step aside. -/
inductive PacketStep (A : Inner → Inner → Sends → Prop) (s : Inner) (env : Env) (source : ClientId) (raw : Bytes) :
    Inner → Sends → Prop
  | aside {s' : Inner} {sends : Sends} (h : A s s' sends) : PacketStep A s env source raw s' sends
  | subscriber {s₁ : Inner} {msg : SubscriberMessage} {v d : ConnVersion} (before : Passive s s₁ [])
      (parsed : parseWithVersion raw v = some (.ok (.subscriber msg, d))) :
      PacketStep A s env source raw (handleSubscriber s₁ env.nowMs source msg).1
        (handleSubscriber s₁ env.nowMs source msg).2.1
  | route {s₁ : Inner} {nbrId : UInt64} {issi : UInt32} {a : Advert} (before : Passive s s₁ [])
      (link : s.fed.links[source]? = some nbrId) (parsed : parse raw nbrId = some (.ok (.route issi a)))
      (fed : raw.head? = some classFederation) :
      PacketStep A s env source raw (receiveRoute s₁ env.nowMs source issi a).1
        (receiveRoute s₁ env.nowMs source issi a).2.1
  | withdraw {s₁ : Inner} {nbrId : UInt64} {issi : UInt32} (before : Passive s s₁ [])
      (link : s.fed.links[source]? = some nbrId) (parsed : parse raw nbrId = some (.ok (.withdraw issi)))
      (fed : raw.head? = some classFederation) :
      PacketStep A s env source raw (receiveWithdraw s₁ source issi).1 (receiveWithdraw s₁ source issi).2.1

theorem notRegistration_of_head {c : UInt8} (h : raw.head? = some c) (hs : c ≠ classSubscriber)
    (hf : c ≠ classFederation) : NotRegistration raw := by
  unfold NotRegistration
  rw [h]
  exact ⟨fun he => hs (Option.some.inj he), fun he => hf (Option.some.inj he)⟩

theorem packetStep_routePacket {A : Inner → Inner → Sends → Prop}
    (hpassive : ∀ {s' : Inner} {sends : Sends}, Passive s s' sends → A s s' sends)
    (hcall : ∀ (s₁ : Inner) (cc : CallControlMessage), Passive s s₁ [] → NotRegistration raw →
      A s (callControl cfg env s₁ source cc raw).inner (callControl cfg env s₁ source cc raw).sends) :
    PacketStep A s env source raw (routePacket cfg env s source raw).inner
      (routePacket cfg env s source raw).sends := by
  have hpurge : Passive s (purgeEphemeral env s) [] := passive_purgeEphemeral
  unfold routePacket
  dsimp only
  split
  · next hfed =>
    unfold handle ofHandled
    dsimp only
    split
    · exact .aside (hpassive hpurge)
    · next nbrId hlink =>
      rw [hpurge.routes.links] at hlink
      split
      · next msg hmsg =>
        cases msg with
        | route issi a => exact .route hpurge hlink hmsg hfed
        | withdraw issi => exact .withdraw hpurge hlink hmsg hfed
        | prune id src => exact .aside (hpassive (hpurge.trans passive_receivePrune))
        | btsHello version =>
          have hmem : source ∈ (purgeEphemeral env s).fed.links :=
            hpurge.routes.links ▸ FinMap.mem_of_getElem? hlink
          exact .aside (hpassive (hpurge.trans (passive_receiveHello hmem)))
        | bts a => exact .aside (hpassive (hpurge.trans passive_acceptBts))
        | msPos a => exact .aside (hpassive (hpurge.trans passive_acceptMs))
        | emergency a => exact .aside (hpassive (hpurge.trans passive_acceptEm))
        | unknown t => exact .aside (hpassive hpurge)
      · exact .aside (hpassive hpurge)
  · split
    · next msg d hparse =>
      have hhead := head?_of_parse hparse
      have hpromote := hpurge.trans (@passive_promoteClientVersion (purgeEphemeral env s) source d)
      cases msg with
      | subscriber msg => exact .subscriber hpromote hparse
      | callControl cc =>
        exact .aside (hcall _ cc hpromote
          (notRegistration_of_head (c := classCallControl) hhead (by decide) (by decide)))
      | frame f =>
        have hraw := notRegistration_of_head (c := classFrame) hhead (by decide) (by decide)
        exact .aside (hpassive (hpromote.trans (passive_frame hraw)))
      | error e => exact .aside (hpassive hpromote)
      | service m => exact .aside (hpassive hpromote)
    · exact .aside (hpassive hpurge)

/-- A SUB message reaches its handler. -/
theorem routePacket_subscriber {msg : SubscriberMessage} (h : asSubscriber raw = some msg) :
    ∃ s₁ : Inner, Passive s s₁ [] ∧
      (routePacket cfg env s source raw).inner = (handleSubscriber s₁ env.nowMs source msg).1 := by
  obtain ⟨d, hp⟩ := (asSubscriber_iff (v := clientVersion (purgeEphemeral env s) source)).mp h
  have hhead : raw.head? = some classSubscriber := head?_of_parse hp
  refine ⟨promoteClientVersion (purgeEphemeral env s) source d,
    passive_purgeEphemeral.trans passive_promoteClientVersion, ?_⟩
  unfold routePacket
  dsimp only
  rw [if_neg (by rw [hhead]; decide), hp]
  rfl

/-- A packet whose private call, if it places one, gets a virtual client of its
own. -/
theorem packetStep_joining (hsip : env.sip.Fresh s) :
    PacketStep Joining s env source raw (routePacket cfg env s source raw).inner
      (routePacket cfg env s source raw).sends := by
  refine packetStep_routePacket (fun h => h.joining) fun s₁ cc hbefore hraw =>
    hbefore.trans_joining (joining_callControl hraw ?_)
  cases hs : env.sip with
  | placed callId v =>
    rw [hs] at hsip
    exact fun hmem => hsip (hbefore.mem_clients.mp hmem)
  | noRoute => trivial
  | noRtpPort => trivial

/-- A packet that places no call to SIP. -/
theorem packetStep_passive (hsip : env.sip.placement = none) :
    PacketStep Passive s env source raw (routePacket cfg env s source raw).inner
      (routePacket cfg env s source raw).sends :=
  packetStep_routePacket id fun _ _ hbefore hraw => hbefore.trans (passive_callControl hraw hsip)

end Packets

section Placed

variable {cfg : Config} {env : Env} {s : Inner} {source : ClientId} {id : Uuid} {raw : Bytes}

theorem placed_endCall : (endCall env s source id raw).placed = none := by
  unfold endCall
  split
  · rfl
  · split
    · rfl
    · split <;> rfl

theorem placed_handleGroupTx {payload : CallPayload} : (handleGroupTx cfg env s source id payload raw).placed = none := by
  unfold handleGroupTx
  split
  · split
    · rfl
    · split
      · rfl
      · split
        · split <;> rfl
        · rfl
  · rfl

theorem placed_handleSdsHeader {payload : CallPayload} : (handleSdsHeader env s source id payload raw).placed = none := by
  unfold handleSdsHeader
  split
  · split <;> rfl
  · rfl

theorem placed_frame {f : FrameMessage} : (frame env s source f raw).placed = none := by
  unfold frame handleSdsTransfer handleSdsReport routeCallFrame
  repeat' split
  all_goals rfl

theorem placed_routePrivateControl : (routePrivateControl env s source id raw).placed = none := by
  unfold routePrivateControl
  split
  · exact placed_endCall
  · split
    · rfl
    · split <;> rfl

/-- Only a setup that is offered to SIP places a leg, and its virtual client has
joined. -/
theorem placed_handlePrivateSetup {payload : CallPayload} {callId : String} {leg : BridgedLeg}
    (h : (handlePrivateSetup env s source id payload raw).placed = some (callId, leg)) :
    env.sip = .placed callId leg.virtualClient ∧
      isBridged (handlePrivateSetup env s source id payload raw).inner leg.virtualClient = true := by
  rcases @handlePrivateSetup_cases env s source id raw payload with ⟨hn, -⟩ | ⟨callId', v, src, hsip, heq⟩
  · rw [hn] at h
    cases h
  · rw [heq] at h ⊢
    cases h
    refine ⟨hsip, isBridged_iff.mpr ?_⟩
    unfold placeOutbound
    rw [FinMap.getElem?_insert, if_pos rfl, Option.map_some, kind_virtualClientEntry]

theorem placed_callControl {cc : CallControlMessage} {callId : String} {leg : BridgedLeg}
    (h : (callControl cfg env s source cc raw).placed = some (callId, leg)) :
    env.sip = .placed callId leg.virtualClient ∧
      isBridged (callControl cfg env s source cc raw).inner leg.virtualClient = true := by
  unfold callControl at h ⊢
  split at h
  · rw [placed_handleGroupTx] at h
    cases h
  · next hg =>
    split at h
    · rw [placed_handleSdsHeader] at h
      cases h
    · next hs =>
      split at h
      · next hp =>
        rw [if_neg hg, if_neg hs, if_pos hp]
        exact placed_handlePrivateSetup h
      · split at h
        · rw [placed_routePrivateControl] at h
          cases h
        · split at h
          · rw [placed_endCall] at h
            cases h
          · cases h

theorem placed_routePacket {callId : String} {leg : BridgedLeg}
    (h : (routePacket cfg env s source raw).placed = some (callId, leg)) :
    env.sip = .placed callId leg.virtualClient ∧
      isBridged (routePacket cfg env s source raw).inner leg.virtualClient = true := by
  unfold routePacket at h ⊢
  dsimp only at h ⊢
  split at h
  · cases h
  · next hfed =>
    rw [if_neg hfed]
    split at h
    · next msg d hparse =>
      cases msg with
      | callControl cc => exact placed_callControl h
      | frame f =>
        rw [dispatch, placed_frame] at h
        cases h
      | subscriber msg => cases h
      | service m => cases h
      | error e => cases h
    · cases h

end Placed

section Bridge

/-- Every leg's virtual client is connected, and no two legs share one. -/
structure Bridged (a : AppState) : Prop where
  virtual : ∀ (callId : String) (leg : BridgedLeg), a.legs[callId]? = some leg →
    isBridged a.inner leg.virtualClient = true
  distinct : ∀ (callId callId' : String) (leg leg' : BridgedLeg), a.legs[callId]? = some leg →
    a.legs[callId']? = some leg' → leg.virtualClient = leg'.virtualClient → callId = callId'

theorem Bridged.of_empty {a : AppState} (h : a.legs = ∅) : Bridged a := by
  refine ⟨fun callId leg hl => ?_, fun callId callId' leg leg' hl => ?_⟩
  all_goals
    rw [h, Std.ExtTreeMap.getElem?_empty] at hl
    cases hl

/-- A handler that keeps the virtual clients keeps the legs sound. -/
theorem Bridged.keep {a : AppState} {s' : Inner} (h : Bridged a)
    (hkeep : ∀ c : ClientId, isBridged a.inner c = true → isBridged s' c = true) :
    Bridged { a with inner := s' } :=
  ⟨fun callId leg hl => hkeep _ (h.virtual callId leg hl), h.distinct⟩

/-- A leg is added for a virtual client that has just joined. -/
theorem Bridged.insert {a : AppState} {s' : Inner} {callId : String} {leg : BridgedLeg} (h : Bridged a)
    (hnew : leg.virtualClient ∉ a.inner.clients) (hjoined : isBridged s' leg.virtualClient = true)
    (hkeep : ∀ c : ClientId, isBridged a.inner c = true → isBridged s' c = true) :
    Bridged { inner := s', legs := a.legs.insert callId leg } := by
  have hother : ∀ (callId' : String) (leg' : BridgedLeg), a.legs[callId']? = some leg' →
      leg'.virtualClient ≠ leg.virtualClient := by
    intro callId' leg' hl heq
    have hb := h.virtual callId' leg' hl
    rw [heq, isBridged, Std.ExtTreeMap.getElem?_eq_none hnew] at hb
    cases hb
  refine ⟨fun callId' leg' hl => ?_, fun callId₁ callId₂ leg₁ leg₂ h₁ h₂ heq => ?_⟩
  · rw [FinMap.getElem?_insert] at hl
    split at hl
    · cases hl
      exact hjoined
    · exact hkeep _ (h.virtual callId' leg' hl)
  · rw [FinMap.getElem?_insert] at h₁ h₂
    split at h₁ <;> split at h₂
    · next e₁ e₂ => exact e₁.symm.trans e₂
    · cases h₁
      exact absurd heq.symm (hother callId₂ leg₂ h₂)
    · cases h₂
      exact absurd heq (hother callId₁ leg₁ h₁)
    · exact h.distinct callId₁ callId₂ leg₁ leg₂ h₁ h₂ heq

theorem clients_removeLeg (s : Inner) (leg : BridgedLeg) :
    (removeLeg s leg).1.clients = s.clients.erase leg.virtualClient := by
  unfold removeLeg
  dsimp only
  split <;> rfl

theorem aside_removeLeg {s : Inner} {leg : BridgedLeg} (h : isBridged s leg.virtualClient = true) :
    Aside s (removeLeg s leg).1 (removeLeg s leg).2 := by
  have hsessions : ∀ c : ClientId, (removeLeg s leg).1.session c = s.session c := by
    intro c
    by_cases hc : leg.virtualClient = c
    · rw [← hc, session_of_bridged h, session_of_not_mem]
      rw [clients_removeLeg, FinMap.mem_erase]
      exact fun hm => hm.1 rfl
    · refine session_congr ?_
      rw [clients_removeLeg, FinMap.getElem?_erase, if_neg hc]
  refine ⟨?_, hsessions, ?_, ?_⟩
  all_goals
    unfold removeLeg
    dsimp only
    split
  · exact ⟨rfl, rfl, rfl, rfl, rfl⟩
  · exact ⟨rfl, rfl, rfl, rfl, rfl⟩
  · exact id
  · exact id
  · exact fun _ => Sends.quiet_nil
  · exact fun _ => Sends.quiet_sendMany (quiet_buildCallCause ..)

/-- One leg goes with its virtual client. -/
theorem aside_teardown {a : AppState} (h : Bridged a) (callId : String) :
    Bridged (teardown a callId).1 ∧ Aside a.inner (teardown a callId).1.inner (teardown a callId).2 := by
  unfold teardown
  split
  · exact ⟨h, .refl _⟩
  · next leg hleg =>
    refine ⟨⟨fun callId' leg' hl => ?_, fun callId₁ callId₂ leg₁ leg₂ h₁ h₂ heq => ?_⟩,
      aside_removeLeg (h.virtual callId leg hleg)⟩
    · rw [FinMap.getElem?_erase] at hl
      split at hl
      · cases hl
      · next hne =>
        have hv : leg.virtualClient ≠ leg'.virtualClient :=
          fun heq => hne (h.distinct callId callId' leg leg' hleg hl heq)
        refine (isBridged_congr ?_).trans (h.virtual callId' leg' hl)
        dsimp only
        rw [clients_removeLeg, FinMap.getElem?_erase, if_neg hv]
    · rw [FinMap.getElem?_erase] at h₁ h₂
      split at h₁
      · cases h₁
      · split at h₂
        · cases h₂
        · exact h.distinct callId₁ callId₂ leg₁ leg₂ h₁ h₂ heq

theorem aside_teardownByBrewCall {a : AppState} (h : Bridged a) (id : Uuid) :
    Bridged (teardownByBrewCall a id).1 ∧
      Aside a.inner (teardownByBrewCall a id).1.inner (teardownByBrewCall a id).2 := by
  unfold teardownByBrewCall
  split
  · exact ⟨h, .refl _⟩
  · exact aside_teardown h _

/-- The legs once a placed call's leg is noted. -/
def Effect.legs (e : Effect) (a : AppState) : AppState :=
  { inner := e.inner
    legs := match e.placed with
      | some (callId, leg) => a.legs.insert callId leg
      | none => a.legs }

/-- What the bridge keeps as it learns of one ended call, it keeps as it learns of all. -/
theorem settle_induct {P : AppState × Sends → Prop} {a : AppState} {e : Effect} (hstart : P (e.legs a, e.sends))
    (hstep : ∀ r, P r → ∀ id ∈ e.ended, P ((teardownByBrewCall r.1 id).1, r.2 ++ (teardownByBrewCall r.1 id).2)) :
    P (settle a e) :=
  List.foldlRecOn e.ended _ hstart hstep

/-- What is kept as one call is swept, a tick of the sweep keeps. -/
theorem sweep_induct {P : AppState × Sends → Prop} {cfg : Config} {env : Env} {a : AppState} (hstart : P (a, []))
    (hstep : ∀ r, P r → ∀ e ∈ sweptCalls cfg env a.inner, P ((settle r.1 (sweepEnd env r.1.inner e.1 e.2)).1,
      r.2 ++ (settle r.1 (sweepEnd env r.1.inner e.1 e.2)).2)) : P (runCallDurationSweep cfg env a) :=
  List.foldlRecOn (sweptCalls cfg env a.inner) _ hstart hstep

/-- What is left to the bridge steps aside, and queues behind what the handler
queued. -/
theorem aside_settle {a : AppState} {e : Effect} (h : Bridged (e.legs a)) :
    Bridged (settle a e).1 ∧
      ∃ more : Sends, (settle a e).2 = e.sends ++ more ∧ Aside e.inner (settle a e).1.inner more := by
  refine settle_induct (P := fun r => Bridged r.1 ∧ ∃ more : Sends, r.2 = e.sends ++ more ∧ Aside e.inner r.1.inner more)
    ⟨h, [], (List.append_nil _).symm, .refl _⟩ ?_
  rintro r ⟨hr, more, heq, haside⟩ id -
  obtain ⟨hb, hone⟩ := aside_teardownByBrewCall hr id
  exact ⟨hb, more ++ (teardownByBrewCall r.1 id).2, by rw [heq, List.append_assoc], haside.trans hone⟩

theorem placed_sweepEnd {env : Env} {s : Inner} {id : Uuid} {call : ActiveCall} :
    (sweepEnd env s id call).placed = none := placed_endCall

theorem aside_sweep (cfg : Config) (env : Env) {a : AppState} (h : Bridged a) :
    Bridged (runCallDurationSweep cfg env a).1 ∧
      Aside a.inner (runCallDurationSweep cfg env a).1.inner (runCallDurationSweep cfg env a).2 := by
  have hone : ∀ (r : AppState × Sends) (e : Uuid × ActiveCall), Bridged r.1 →
      Bridged (settle r.1 (sweepEnd env r.1.inner e.1 e.2)).1 ∧
        Aside r.1.inner (settle r.1 (sweepEnd env r.1.inner e.1 e.2)).1.inner
          (settle r.1 (sweepEnd env r.1.inner e.1 e.2)).2 := by
    intro r e hr
    have hjoin : Joining r.1.inner _ _ := (@passive_sweepEnd env r.1.inner e.1 e.2).joining
    have hlegs : Bridged ((sweepEnd env r.1.inner e.1 e.2).legs r.1) := by
      unfold Effect.legs
      rw [placed_sweepEnd]
      exact hr.keep fun c hc => hjoin.isBridged hc
    obtain ⟨hb, more, heq, haside⟩ := aside_settle hlegs
    exact ⟨hb, heq ▸ hjoin.aside.trans haside⟩
  refine sweep_induct (P := fun r => Bridged r.1 ∧ Aside a.inner r.1.inner r.2) ⟨h, .refl _⟩ ?_
  rintro r ⟨hr, haside⟩ e -
  exact ⟨(hone r e hr).1, haside.trans (hone r e hr).2⟩

/-- An accepted INVITE adds a virtual client and its leg. -/
theorem joined {a : AppState} {s' : Inner} {sends : Sends} {callId : String} {leg : BridgedLeg} (h : Bridged a)
    (hv : leg.virtualClient ∉ a.inner.clients)
    (hc : s'.clients = a.inner.clients.insert leg.virtualClient virtualClientEntry)
    (hs : s'.subscribers = a.inner.subscribers) (hf : s'.fed = a.inner.fed) (hd : s'.sdsRoutes = a.inner.sdsRoutes)
    (hq : sends.Quiet) :
    Bridged { inner := s', legs := a.legs.insert callId leg } ∧ Joining a.inner s' sends := by
  have hjoin : Joining a.inner s' sends := joining_insertVirtual hv hc hs hf hd hq
  refine ⟨h.insert hv (isBridged_iff.mpr ?_) fun c hb => hjoin.isBridged hb, hjoin⟩
  rw [hc, FinMap.getElem?_insert, if_pos rfl, Option.map_some, kind_virtualClientEntry]

theorem joining_sipToBrewPrivate {env : Env} {a : AppState} {callId : String} {issi : UInt32} {v : ClientId}
    {id : Uuid} {rtpPort : Bool} (h : Bridged a) (hv : v ∉ a.inner.clients) :
    Bridged (sipToBrewPrivate env a callId issi v id rtpPort).1 ∧
      Joining a.inner (sipToBrewPrivate env a callId issi v id rtpPort).1.inner
        (sipToBrewPrivate env a callId issi v id rtpPort).2 := by
  have hnone : Bridged a ∧ Joining a.inner a.inner [] := ⟨h, (Passive.refl _).joining⟩
  unfold sipToBrewPrivate
  split
  · exact hnone
  · split
    · exact hnone
    · split
      · exact hnone
      · dsimp only
        refine joined h hv rfl rfl rfl rfl (Sends.quiet_send ?_)
        exact quiet_cons (by decide) (by decide)

theorem joining_sipToBrewGroup {cfg : Config} {env : Env} {a : AppState} {callId : String} {g : UInt32}
    {v : ClientId} {id : Uuid} {rtpPort : Bool} (h : Bridged a) (hv : v ∉ a.inner.clients) :
    Bridged (sipToBrewGroup cfg env a callId g v id rtpPort).1 ∧
      Joining a.inner (sipToBrewGroup cfg env a callId g v id rtpPort).1.inner
        (sipToBrewGroup cfg env a callId g v id rtpPort).2 := by
  have hnone : Bridged a ∧ Joining a.inner a.inner [] := ⟨h, (Passive.refl _).joining⟩
  unfold sipToBrewGroup
  split
  · exact hnone
  · split
    · exact hnone
    · dsimp only
      exact joined h hv rfl rfl rfl rfl (Sends.quiet_sendMany (quiet_buildGroupTx ..))

end Bridge

/-- What an event can do to the registrations of a server, before what it leaves
to the bridge. -/
inductive EventStep (A : Inner → Inner → Sends → Prop) (s : Inner) : Event → Inner → Sends → Prop
  | aside {ev : Event} {s' : Inner} {sends : Sends} (h : A s s' sends) : EventStep A s ev s' sends
  | connect (id : ClientId) (client : Client) (neighbour : Option UInt64) (console : Bool) :
      EventStep A s (.connect id client neighbour console) (openSession s id client neighbour console).1
        (openSession s id client neighbour console).2
  | disconnect (id : ClientId) : EventStep A s (.disconnect id) (cleanupClient s id).inner (cleanupClient s id).sends
  | packet {env : Env} {source : ClientId} {raw : Bytes} {s' : Inner} {sends : Sends}
      (h : PacketStep A s env source raw s' sends) : EventStep A s (.packet env source raw) s' sends

theorem eventStep_routeEvent {cfg : Config} {s : Inner} {A : Inner → Inner → Sends → Prop}
    (hpassive : ∀ {s' : Inner} {sends : Sends}, Passive s s' sends → A s s' sends) {ev : Event}
    (hpacket : ∀ (env : Env) (source : ClientId) (raw : Bytes), ev = .packet env source raw →
      PacketStep A s env source raw (routePacket cfg env s source raw).inner
        (routePacket cfg env s source raw).sends) :
    EventStep A s ev (routeEvent cfg s ev).inner (routeEvent cfg s ev).sends := by
  cases ev with
  | connect id client neighbour console => exact .connect id client neighbour console
  | packet env source raw => exact .packet (hpacket env source raw rfl)
  | disconnect id => exact .disconnect id
  | alarm issi => exact .aside (hpassive passive_emergencyRaised)
  | smsDeliver env id src dest lengthBits data => exact .aside (hpassive passive_deliverStored)
  | advertiseBts nowMs key name lat lon online => exact .aside (hpassive passive_advertiseBts)
  | advertiseEmergency nowMs issi dest bts active => exact .aside (hpassive passive_advertiseEmergency)
  | sweep env => exact .aside (hpassive (.refl s))
  | sipPrivate env callId issi v id rtpPort => exact .aside (hpassive (.refl s))
  | sipGroup env callId g v id rtpPort => exact .aside (hpassive (.refl s))
  | sipEnd callId => exact .aside (hpassive (.refl s))

/-- The events the bridge and the sweep do not handle themselves. -/
def Event.Routed : Event → Prop
  | .sweep _ | .sipPrivate .. | .sipGroup .. | .sipEnd _ => False
  | _ => True

theorem AppState.run_sipPrivate (cfg : Config) (a : AppState) (env : Env) (callId : String) (issi : UInt32)
    (v : ClientId) (id : Uuid) (rtpPort : Bool) :
    a.run cfg (.sipPrivate env callId issi v id rtpPort) = sipToBrewPrivate env a callId issi v id rtpPort := by
  rw [AppState.run]

theorem AppState.run_sipGroup (cfg : Config) (a : AppState) (env : Env) (callId : String) (g : UInt32)
    (v : ClientId) (id : Uuid) (rtpPort : Bool) :
    a.run cfg (.sipGroup env callId g v id rtpPort) = sipToBrewGroup cfg env a callId g v id rtpPort := by
  rw [AppState.run]

theorem AppState.run_sipEnd (cfg : Config) (a : AppState) (callId : String) :
    a.run cfg (.sipEnd callId) = teardown a callId := by
  rw [AppState.run]

theorem AppState.run_sweep (cfg : Config) (a : AppState) (env : Env) :
    a.run cfg (.sweep env) = runCallDurationSweep cfg env a := by
  rw [AppState.run]

theorem AppState.run_routed (cfg : Config) (a : AppState) {ev : Event} (h : ev.Routed) :
    a.run cfg ev = settle a (routeEvent cfg a.inner ev) := by
  cases ev with
  | sweep env => exact h.elim
  | sipPrivate env callId issi v id rtpPort => exact h.elim
  | sipGroup env callId g v id rtpPort => exact h.elim
  | sipEnd callId => exact h.elim
  | connect => rfl
  | packet => rfl
  | disconnect => rfl
  | alarm => rfl
  | smsDeliver => rfl
  | advertiseBts => rfl
  | advertiseEmergency => rfl

/-- A handler that ends no call leaves nothing to the bridge but its leg. -/
theorem settle_of_ended {a : AppState} {e : Effect} (h : e.ended = []) : settle a e = (e.legs a, e.sends) := by
  unfold settle
  rw [h]
  rfl

/-- A packet whose handler ends no call. -/
theorem run_packet_of_ended {cfg : Config} {a : AppState} {env : Env} {source : ClientId} {raw : Bytes}
    (h : (routePacket cfg env a.inner source raw).ended = []) :
    (a.next cfg (.packet env source raw)).inner = (routePacket cfg env a.inner source raw).inner ∧
      a.sent cfg (.packet env source raw) = (routePacket cfg env a.inner source raw).sends := by
  have hr : (Event.packet env source raw).Routed := trivial
  have hroute : routeEvent cfg a.inner (.packet env source raw) = routePacket cfg env a.inner source raw := rfl
  rw [AppState.next, AppState.sent, a.run_routed cfg hr, hroute, settle_of_ended h]
  exact ⟨rfl, rfl⟩

/-- A packet changes the clients in a step aside only. -/
theorem PacketStep.isBridged {s s' : Inner} {env : Env} {source : ClientId} {raw : Bytes} {sends : Sends}
    (h : PacketStep Joining s env source raw s' sends) {c : ClientId} (hc : isBridged s c = true) :
    BrewServer.Router.isBridged s' c = true := by
  have hkeep : ∀ {s₁ s₂ : Inner}, Passive s s₁ [] → s₂.clients = s₁.clients → Router.isBridged s₂ c = true := by
    intro s₁ s₂ hbefore heq
    exact (isBridged_congr (by rw [heq, hbefore.routes.kinds])).trans hc
  cases h with
  | aside h => exact h.isBridged hc
  | @subscriber s₁ msg v d before parsed =>
    refine hkeep before ?_
    rcases handleSubscriber_cases s₁ env.nowMs source msg with heq | ⟨ticked, new, groups, -, hentry, heq⟩
    · rw [heq]
    · rw [heq]
      exact (lateEntry_same _ source groups).2.1.trans (hentry.registers.trans registers_applyEntry).clients
  | @route s₁ nbrId issi a before link parsed fed =>
    refine hkeep before ?_
    rw [receiveRoute_eq.1]
    exact (registers_takeOffer.trans registers_reroute).clients
  | @withdraw s₁ nbrId issi before link parsed fed =>
    exact hkeep before (registers_receiveWithdraw).clients

/-- No connection is lost but the one that closes, which is no virtual client. -/
theorem EventStep.isBridged {a : AppState} {ev : Event} {s' : Inner} {sends : Sends}
    (h : EventStep Joining a.inner ev s' sends) (ha : ev.Allowed a) {c : ClientId}
    (hc : Router.isBridged a.inner c = true) : Router.isBridged s' c = true := by
  cases h with
  | aside h => exact h.isBridged hc
  | connect id client neighbour console =>
    have hne : id ≠ c := by
      rintro rfl
      rw [Router.isBridged, Std.ExtTreeMap.getElem?_eq_none ha.1] at hc
      cases hc
    refine (isBridged_congr ?_).trans hc
    rw [clients_openSession, FinMap.getElem?_insert, if_neg hne]
  | disconnect id =>
    have hne : id ≠ c := by
      rintro rfl
      rw [ha.2] at hc
      cases hc
    refine (isBridged_congr ?_).trans hc
    rw [clients_cleanupClient, FinMap.getElem?_erase, if_neg hne]
  | packet h => exact h.isBridged hc

/-- What an event did: its own effect on the registrations, then steps aside. -/
structure Ran (cfg : Config) (a : AppState) (ev : Event) (mid : Inner) (sends more : Sends) : Prop where
  event : EventStep Joining a.inner ev mid sends
  aside : Aside mid (a.next cfg ev).inner more
  sent : a.sent cfg ev = sends ++ more
  bridged : Bridged (a.next cfg ev)

theorem Ran.of_joining {cfg : Config} {a : AppState} {ev : Event} {r : AppState × Sends} (hrun : a.run cfg ev = r)
    (h : Bridged r.1 ∧ Aside a.inner r.1.inner r.2) : Ran cfg a ev a.inner [] r.2 := by
  subst hrun
  exact ⟨.aside (Passive.refl _).joining, h.2, rfl, h.1⟩

theorem placed_routeEvent {cfg : Config} {s : Inner} {ev : Event} {callId : String} {leg : BridgedLeg}
    (h : (routeEvent cfg s ev).placed = some (callId, leg)) :
    ∃ (env : Env) (source : ClientId) (raw : Bytes), ev = .packet env source raw ∧
      env.sip = .placed callId leg.virtualClient ∧
      isBridged (routeEvent cfg s ev).inner leg.virtualClient = true := by
  cases ev with
  | packet env source raw => exact ⟨env, source, raw, rfl, placed_routePacket h⟩
  | disconnect id =>
    rw [routeEvent, (cleanupClient_eq s id).2.2.2] at h
    cases h
  | _ => cases h

/-- A handler keeps the virtual clients of the legs, and the one it places is new. -/
theorem bridged_legs {cfg : Config} {a : AppState} {ev : Event} (hb : Bridged a) (h : ev.Allowed a)
    (hstep : EventStep Joining a.inner ev (routeEvent cfg a.inner ev).inner (routeEvent cfg a.inner ev).sends) :
    Bridged ((routeEvent cfg a.inner ev).legs a) := by
  have hkeep : ∀ c : ClientId, isBridged a.inner c = true → isBridged (routeEvent cfg a.inner ev).inner c = true :=
    fun c hc => hstep.isBridged h hc
  unfold Effect.legs
  cases hp : (routeEvent cfg a.inner ev).placed with
  | none => exact hb.keep hkeep
  | some p =>
    obtain ⟨callId, leg⟩ := p
    obtain ⟨env, source, raw, rfl, hsip, hjoined⟩ := placed_routeEvent hp
    have hfresh := h.2.2
    rw [hsip] at hfresh
    exact hb.insert hfresh hjoined hkeep

theorem eventStep_joining {cfg : Config} {a : AppState} {ev : Event} (h : ev.Allowed a) :
    EventStep Joining a.inner ev (routeEvent cfg a.inner ev).inner (routeEvent cfg a.inner ev).sends := by
  refine eventStep_routeEvent (fun h => h.joining) ?_
  rintro env source raw rfl
  exact packetStep_joining h.2.2

theorem ran_routed {cfg : Config} {a : AppState} {ev : Event} (hb : Bridged a) (h : ev.Allowed a) (hr : ev.Routed) :
    ∃ more : Sends, Ran cfg a ev (routeEvent cfg a.inner ev).inner (routeEvent cfg a.inner ev).sends more := by
  have hstep : EventStep Joining a.inner ev (routeEvent cfg a.inner ev).inner (routeEvent cfg a.inner ev).sends :=
    eventStep_joining h
  obtain ⟨hb', more, hsends, haside⟩ := aside_settle (bridged_legs hb h hstep)
  refine ⟨more, hstep, ?_, ?_, ?_⟩
  · rw [AppState.next, a.run_routed cfg hr]
    exact haside
  · rw [AppState.sent, a.run_routed cfg hr]
    exact hsends
  · rw [AppState.next, a.run_routed cfg hr]
    exact hb'

theorem ran (cfg : Config) {a : AppState} {ev : Event} (hb : Bridged a) (h : ev.Allowed a) :
    ∃ (mid : Inner) (sends more : Sends), Ran cfg a ev mid sends more := by
  cases ev with
  | sipPrivate env callId issi v id rtpPort =>
    obtain ⟨hb', hjoin⟩ := @joining_sipToBrewPrivate env a callId issi v id rtpPort hb h.1
    exact ⟨_, _, _, .of_joining (a.run_sipPrivate cfg env callId issi v id rtpPort) ⟨hb', hjoin.aside⟩⟩
  | sipGroup env callId g v id rtpPort =>
    obtain ⟨hb', hjoin⟩ := @joining_sipToBrewGroup cfg env a callId g v id rtpPort hb h.1
    exact ⟨_, _, _, .of_joining (a.run_sipGroup cfg env callId g v id rtpPort) ⟨hb', hjoin.aside⟩⟩
  | sipEnd callId => exact ⟨_, _, _, .of_joining (a.run_sipEnd cfg callId) (aside_teardown hb callId)⟩
  | sweep env => exact ⟨_, _, _, .of_joining (a.run_sweep cfg env) (aside_sweep cfg env hb)⟩
  | connect id client neighbour console => exact ⟨_, _, ran_routed hb h trivial⟩
  | packet env source raw => exact ⟨_, _, ran_routed hb h trivial⟩
  | disconnect id => exact ⟨_, _, ran_routed hb h trivial⟩
  | alarm issi => exact ⟨_, _, ran_routed hb h trivial⟩
  | smsDeliver env id src dest lengthBits data => exact ⟨_, _, ran_routed hb h trivial⟩
  | advertiseBts nowMs key name lat lon online => exact ⟨_, _, ran_routed hb h trivial⟩
  | advertiseEmergency nowMs issi dest bts active => exact ⟨_, _, ran_routed hb h trivial⟩

section WithoutBridge

theorem teardownByBrewCall_of_empty {a : AppState} (h : a.legs = ∅) (id : Uuid) :
    teardownByBrewCall a id = (a, []) := by
  unfold teardownByBrewCall
  rw [h, Std.ExtTreeMap.toList_eq_nil_iff.mpr rfl]
  rfl

/-- With no leg on any call, nothing is left to the bridge. -/
theorem settle_of_empty {a : AppState} {e : Effect} (h : a.legs = ∅) (hp : e.placed = none) :
    settle a e = ({ inner := e.inner, legs := ∅ }, e.sends) := by
  refine settle_induct (P := fun r => r = ({ inner := e.inner, legs := ∅ }, e.sends)) ?_ ?_
  · rw [Effect.legs, hp, h]
  · rintro _ rfl id -
    rw [teardownByBrewCall_of_empty rfl, List.append_nil]

theorem placed_of_withoutSip {cfg : Config} {s : Inner} {ev : Event} (h : ev.WithoutSip) :
    (routeEvent cfg s ev).placed = none := by
  cases hp : (routeEvent cfg s ev).placed with
  | none => rfl
  | some p =>
    obtain ⟨env, source, raw, rfl, hsip, -⟩ := placed_routeEvent hp
    change env.sip.placement = none at h
    rw [hsip] at h
    cases h

theorem passive_sweep_of_empty (cfg : Config) (env : Env) {a : AppState} (h : a.legs = ∅) :
    (runCallDurationSweep cfg env a).1.legs = ∅ ∧
      Passive a.inner (runCallDurationSweep cfg env a).1.inner (runCallDurationSweep cfg env a).2 := by
  refine sweep_induct (P := fun r => r.1.legs = ∅ ∧ Passive a.inner r.1.inner r.2) ⟨h, .refl _⟩ ?_
  rintro r ⟨hr, hpass⟩ e -
  rw [settle_of_empty hr placed_sweepEnd]
  exact ⟨rfl, hpass.trans passive_sweepEnd⟩

/-- Without the bridge, an event does what its handler does and no more. -/
theorem ran_withoutSip (cfg : Config) {a : AppState} {ev : Event} (hl : a.legs = ∅) (h : ev.WithoutSip) :
    (a.next cfg ev).legs = ∅ ∧ EventStep Passive a.inner ev (a.next cfg ev).inner (a.sent cfg ev) := by
  have hrouted : ev.Routed →
      (a.next cfg ev).legs = ∅ ∧ EventStep Passive a.inner ev (a.next cfg ev).inner (a.sent cfg ev) := by
    intro hr
    rw [AppState.next, AppState.sent, a.run_routed cfg hr, settle_of_empty hl (placed_of_withoutSip h)]
    refine ⟨rfl, eventStep_routeEvent id ?_⟩
    rintro env source raw rfl
    exact packetStep_passive h
  cases ev with
  | sweep env =>
    rw [AppState.next, AppState.sent, a.run_sweep cfg env]
    obtain ⟨hl', hp⟩ := passive_sweep_of_empty cfg env hl
    exact ⟨hl', .aside hp⟩
  | sipPrivate env callId issi v id rtpPort => exact h.elim
  | sipGroup env callId g v id rtpPort => exact h.elim
  | sipEnd callId => exact h.elim
  | connect id client neighbour console => exact hrouted trivial
  | packet env source raw => exact hrouted trivial
  | disconnect id => exact hrouted trivial
  | alarm issi => exact hrouted trivial
  | smsDeliver env id src dest lengthBits data => exact hrouted trivial
  | advertiseBts nowMs key name lat lon online => exact hrouted trivial
  | advertiseEmergency nowMs issi dest bts active => exact hrouted trivial

end WithoutBridge

end BrewServer
