import SilverPow.Base.Run
import SilverPow.Stratum.Json

/-!
# Subscriptions of a WebSocket client

`src/websocket_server.rs:65–84`, `247–446`: a client subscribes to channels and unsubscribes
from them by name, and gets the events of the channels on its list. An address is taken off
the list when it ends the name in the message, so `address:abc` also removes the address `bc`.
-/

namespace SilverPow.WebSocket

open SilverPow.Base SilverPow.Stratum

/-- `SubscriptionType`, `src/websocket_server.rs:66–78`. -/
inductive SubscriptionType where
  | blocks
  | transactions
  | address (address : String)
  | difficulty
  | networkStats
  deriving DecidableEq

/-- `matches!(sub, SubscriptionType::Address(addr) if addr == address)`,
`src/websocket_server.rs:430–432`. -/
def SubscriptionType.isAddress (address : String) : SubscriptionType → Bool
  | .address addr => addr = address
  | _ => false

/-- `BlockchainEvent`, `src/websocket_server.rs:21–63`; the other fields are only written into
the message. -/
inductive BlockchainEvent where
  | newBlock
  | newTransaction
  | transactionConfirmed
  | balanceChanged (address : String)
  | difficultyAdjusted
  | networkStats

/-- `ClientConnection`, `src/websocket_server.rs:81–85`. -/
structure ClientConnection where
  subscriptions : List SubscriptionType
  lastHeartbeat : U64

/-- The prefix `address:` of a channel name. -/
def addressPrefix : List Char := "address:".toList

/-- The subscription that a channel name stands for, `src/websocket_server.rs:308–318`. -/
def parseChannel (channel : String) : Option SubscriptionType :=
  if channel = "blocks" then some .blocks
  else if channel = "transactions" then some .transactions
  else if channel = "difficulty" then some .difficulty
  else if channel = "network_stats" then some .networkStats
  else if addressPrefix <+: channel.toList then
    some (.address (String.ofList (channel.toList.drop addressPrefix.length)))
  else none

/-- What `retain` keeps of the list for the name in an `unsubscribe` message,
`src/websocket_server.rs:345–355`. -/
def keeps (channel : String) : SubscriptionType → Bool
  | .blocks => channel ≠ "blocks"
  | .transactions => channel ≠ "transactions"
  | .difficulty => channel ≠ "difficulty"
  | .networkStats => channel ≠ "network_stats"
  | .address addr => ¬(addressPrefix <+: channel.toList ∧ addr.toList <:+ channel.toList)

namespace ClientConnection

/-- A client that has just connected, `src/websocket_server.rs:266–275`. -/
def new (now : U64) : ClientConnection := ⟨[], now⟩

/-- The list after a subscription that may be on it, `src/websocket_server.rs:323–324`. -/
def subscribe (client : ClientConnection) (sub : SubscriptionType) : ClientConnection :=
  if sub ∈ client.subscriptions then client
  else { client with subscriptions := client.subscriptions ++ [sub] }

/-- What a message does to the client, `src/websocket_server.rs:302–373`; the replies are left
out. A `ping` or any other action changes nothing. -/
def handleRequest (client : ClientConnection) (request : Value) : ClientConnection :=
  match (request.get "action").bind Value.asStr, (request.get "channel").bind Value.asStr with
  | some action, some channel =>
    if action = "subscribe" then
      match parseChannel channel with
      | some sub => client.subscribe sub
      | none => client
    else if action = "unsubscribe" then
      { client with subscriptions := client.subscriptions.filter (keeps channel) }
    else client
  | _, _ => client

/-- `should_send`, `src/websocket_server.rs:417–440`. -/
def shouldSend (client : ClientConnection) : BlockchainEvent → Bool
  | .newBlock => client.subscriptions.contains .blocks
  | .newTransaction => client.subscriptions.contains .transactions
  | .transactionConfirmed => client.subscriptions.contains .transactions
  | .balanceChanged address => client.subscriptions.any (·.isAddress address)
  | .difficultyAdjusted => client.subscriptions.contains .difficulty
  | .networkStats => client.subscriptions.contains .networkStats

end ClientConnection

/-- The name of a channel. -/
def SubscriptionType.channel : SubscriptionType → String
  | .blocks => "blocks"
  | .transactions => "transactions"
  | .address addr => "address:" ++ addr
  | .difficulty => "difficulty"
  | .networkStats => "network_stats"

/-- The channel that an event belongs to. -/
def BlockchainEvent.subscription : BlockchainEvent → SubscriptionType
  | .newBlock => .blocks
  | .newTransaction => .transactions
  | .transactionConfirmed => .transactions
  | .balanceChanged address => .address address
  | .difficultyAdjusted => .difficulty
  | .networkStats => .networkStats

/-- A message of the client about a channel. -/
inductive ClientMessage where
  | subscribe (sub : SubscriptionType)
  | unsubscribe (sub : SubscriptionType)
  deriving DecidableEq

namespace ClientMessage

/-- The channel that a message names. -/
def sub : ClientMessage → SubscriptionType
  | subscribe sub => sub
  | unsubscribe sub => sub

/-- The JSON of a message. -/
def request : ClientMessage → Value
  | subscribe sub =>
    .object [("action", .string "subscribe"), ("channel", .string sub.channel)]
  | unsubscribe sub =>
    .object [("action", .string "unsubscribe"), ("channel", .string sub.channel)]

end ClientMessage

/-- The server takes the next message of the client. -/
def Step (client : ClientConnection) (message : ClientMessage) (client' : ClientConnection) :
    Prop :=
  client' = client.handleRequest message.request

/-- The last message that names a channel is there and subscribes to it. -/
def LastSubscribes (sub : SubscriptionType) (messages : List ClientMessage) : Prop :=
  (messages.filter (·.sub = sub)).getLast? = some (.subscribe sub)

instance (sub : SubscriptionType) (messages : List ClientMessage) :
    Decidable (LastSubscribes sub messages) :=
  inferInstanceAs (Decidable (_ = _))

/-- The list of the client is a set, and has the channels whose last message subscribes; the
events of these channels are delivered. -/
structure FollowsMessages (messages : List ClientMessage) (client : ClientConnection) : Prop where
  nodup : client.subscriptions.Nodup
  mem_iff (sub : SubscriptionType) :
    sub ∈ client.subscriptions ↔ LastSubscribes sub messages
  delivered_iff (event : BlockchainEvent) :
    client.shouldSend event = true ↔ LastSubscribes event.subscription messages

/-- The message takes no other address off the list: when it unsubscribes from an address, no
other subscribed one ends the name of the channel. -/
def Harmless (messages : List ClientMessage) (message : ClientMessage) : Prop :=
  ∀ a b, message = .unsubscribe (.address a) → b ≠ a → LastSubscribes (.address b) messages →
    ¬b.toList <:+ (SubscriptionType.address a).channel.toList

/-! ### Names of channels -/

theorem toList_channel_address (a : String) :
    (SubscriptionType.address a).channel.toList = addressPrefix ++ a.toList :=
  String.toList_append

/-- The names of addresses are those with the prefix. -/
theorem prefix_channel_iff (sub : SubscriptionType) :
    addressPrefix <+: sub.channel.toList ↔ ∃ a, sub = .address a := by
  cases sub with
  | address a =>
    rw [toList_channel_address]
    exact iff_of_true (List.prefix_append _ _) ⟨a, rfl⟩
  | blocks | transactions | difficulty | networkStats =>
    exact iff_of_false (by decide +kernel) (by simp)

/-- The name of a channel is read back. -/
theorem parseChannel_channel (sub : SubscriptionType) : parseChannel sub.channel = some sub := by
  cases sub with
  | address a =>
    have hne {name : String} (h : ¬addressPrefix <+: name.toList) :
        (SubscriptionType.address a).channel ≠ name := by
      rintro rfl
      rw [toList_channel_address] at h
      exact h (List.prefix_append _ _)
    unfold parseChannel
    rw [if_neg (hne (by decide +kernel)), if_neg (hne (by decide +kernel)),
      if_neg (hne (by decide +kernel)), if_neg (hne (by decide +kernel)), toList_channel_address,
      if_pos (List.prefix_append _ _), List.drop_left, String.ofList_toList]
  | blocks | transactions | difficulty | networkStats => decide +kernel

theorem channel_injective : Function.Injective SubscriptionType.channel := by
  intro sub other h
  have hsub := parseChannel_channel sub
  rw [h, parseChannel_channel] at hsub
  exact (Option.some.inj hsub).symm

/-- What a message about a channel takes off the list: that channel, and for an address all
addresses that end the name. -/
theorem keeps_channel_eq_false_iff (sub other : SubscriptionType) :
    keeps sub.channel other = false ↔
      other = sub ∨ ∃ a b, sub = .address a ∧ other = .address b ∧
        b.toList <:+ sub.channel.toList := by
  have hfixed (name : String) (h : other.channel = name)
      (hk : keeps sub.channel other = decide (sub.channel ≠ name)) (ha : ∀ b, other ≠ .address b) :
      keeps sub.channel other = false ↔
        other = sub ∨ ∃ a b, sub = .address a ∧ other = .address b ∧
          b.toList <:+ sub.channel.toList := by
    have hb : ¬∃ a b, sub = .address a ∧ other = .address b ∧
        b.toList <:+ sub.channel.toList := fun ⟨_, b, _, hb, _⟩ ↦ ha b hb
    rw [hk, decide_eq_false_iff_not, not_not, ← h, or_iff_left hb, channel_injective.eq_iff,
      eq_comm]
  cases other with
  | blocks => exact hfixed _ rfl rfl (by simp)
  | transactions => exact hfixed _ rfl rfl (by simp)
  | difficulty => exact hfixed _ rfl rfl (by simp)
  | networkStats => exact hfixed _ rfl rfl (by simp)
  | address b =>
    have hk : keeps sub.channel (.address b) = false ↔
        addressPrefix <+: sub.channel.toList ∧ b.toList <:+ sub.channel.toList := by
      simp [keeps]
    rw [hk, prefix_channel_iff]
    constructor
    · rintro ⟨⟨a, ha⟩, hb⟩
      exact .inr ⟨a, b, ha, rfl, hb⟩
    · rintro (rfl | ⟨a, b', ha, hb', hs⟩)
      · rw [toList_channel_address]
        exact ⟨⟨b, rfl⟩, List.suffix_append _ _⟩
      · cases hb'
        exact ⟨⟨a, ha⟩, hs⟩

/-- The events of a channel are delivered when it is on the list. -/
theorem ClientConnection.shouldSend_iff (client : ClientConnection) (event : BlockchainEvent) :
    client.shouldSend event = true ↔ event.subscription ∈ client.subscriptions := by
  cases event with
  | balanceChanged address =>
    have hiff (sub : SubscriptionType) :
        sub.isAddress address = true ↔ sub = .address address := by
      cases sub <;> simp [SubscriptionType.isAddress]
    simp only [shouldSend, List.any_eq_true, hiff, exists_eq_right]
    rfl
  | newBlock | newTransaction | transactionConfirmed | difficultyAdjusted | networkStats =>
    exact List.contains_iff_mem

/-! ### One message -/

theorem handleRequest_subscribe (client : ClientConnection) (sub : SubscriptionType) :
    client.handleRequest (ClientMessage.subscribe sub).request = client.subscribe sub := by
  have h : client.handleRequest (ClientMessage.subscribe sub).request =
      match parseChannel sub.channel with
      | some sub => client.subscribe sub
      | none => client := rfl
  rw [h, parseChannel_channel]

theorem handleRequest_unsubscribe (client : ClientConnection) (sub : SubscriptionType) :
    client.handleRequest (ClientMessage.unsubscribe sub).request =
      { client with subscriptions := client.subscriptions.filter (keeps sub.channel) } := rfl

theorem lastSubscribes_subscribe (sub other : SubscriptionType) (messages : List ClientMessage) :
    LastSubscribes other (messages ++ [.subscribe sub]) ↔
      other = sub ∨ LastSubscribes other messages := by
  unfold LastSubscribes
  rw [List.filter_append]
  by_cases h : sub = other
  · simp [ClientMessage.sub, h]
  · simp [ClientMessage.sub, h, Ne.symm h]

theorem lastSubscribes_unsubscribe (sub other : SubscriptionType) (messages : List ClientMessage) :
    LastSubscribes other (messages ++ [.unsubscribe sub]) ↔
      other ≠ sub ∧ LastSubscribes other messages := by
  unfold LastSubscribes
  rw [List.filter_append]
  by_cases h : sub = other
  · simp [ClientMessage.sub, h]
  · simp [ClientMessage.sub, h, Ne.symm h]

theorem mem_subscribe (client : ClientConnection) (sub other : SubscriptionType) :
    other ∈ (client.subscribe sub).subscriptions ↔ other = sub ∨ other ∈ client.subscriptions := by
  unfold ClientConnection.subscribe
  split
  · next h => exact ⟨.inr, fun ho ↦ ho.elim (fun he ↦ he ▸ h) id⟩
  · simp [or_comm]

theorem nodup_subscribe {client : ClientConnection} (h : client.subscriptions.Nodup)
    (sub : SubscriptionType) : (client.subscribe sub).subscriptions.Nodup := by
  unfold ClientConnection.subscribe
  split
  · exact h
  · next hs =>
    rw [← List.concat_eq_append]
    exact h.concat hs

/-- What is delivered follows from what is on the list. -/
theorem followsMessages_iff (messages : List ClientMessage) (client : ClientConnection) :
    FollowsMessages messages client ↔ client.subscriptions.Nodup ∧
      ∀ sub, sub ∈ client.subscriptions ↔ LastSubscribes sub messages := by
  constructor
  · intro h
    exact ⟨h.nodup, h.mem_iff⟩
  · rintro ⟨hnodup, hmem⟩
    exact ⟨hnodup, hmem, fun event ↦ (client.shouldSend_iff event).trans (hmem _)⟩

/-- A message keeps the list in step with the messages exactly when it takes no other address
off it. -/
theorem followsMessages_concat_iff {messages : List ClientMessage}
    {client client' : ClientConnection} {message : ClientMessage}
    (h : FollowsMessages messages client) (hstep : Step client message client') :
    FollowsMessages (messages ++ [message]) client' ↔ Harmless messages message := by
  rw [followsMessages_iff] at h ⊢
  rw [Step] at hstep
  obtain ⟨hnodup, hmem⟩ := h
  cases message with
  | subscribe sub =>
    rw [handleRequest_subscribe] at hstep
    subst hstep
    apply iff_of_true
    · refine ⟨nodup_subscribe hnodup sub, fun other ↦ ?_⟩
      rw [mem_subscribe, hmem, lastSubscribes_subscribe]
    · intro a b hm
      cases hm
  | unsubscribe sub =>
    rw [handleRequest_unsubscribe] at hstep
    subst hstep
    rw [and_iff_right (hnodup.filter _)]
    simp only [lastSubscribes_unsubscribe, ← hmem, List.mem_filter]
    constructor
    · intro hall a b ha hne hlast hsuffix
      cases ha
      have hb := (hall (.address b)).mpr ⟨by simpa using hne, (hmem _).mpr hlast⟩
      have hgone := (keeps_channel_eq_false_iff (.address a) (.address b)).mpr
        (.inr ⟨a, b, rfl, rfl, hsuffix⟩)
      rw [hgone] at hb
      cases hb.2
    · intro hharmless other
      rw [and_comm, and_congr_left_iff]
      intro ho
      rw [← Bool.not_eq_false, not_iff_not, keeps_channel_eq_false_iff, or_iff_left_iff_imp]
      rintro ⟨a, b, rfl, rfl, hsuffix⟩
      by_contra hne
      exact hharmless a b rfl (by simpa using hne) ((hmem _).mp ho) hsuffix

/-- In every run of a client that has just connected, its list follows the messages in each
state exactly when each message is harmless. -/
theorem followsMessages_run_iff (now : U64) (messages : List ClientMessage) :
    Run.Always Step (.new now) FollowsMessages messages ↔ Log.Each Harmless messages := by
  have hstart : FollowsMessages [] (.new now) := by
    apply (followsMessages_iff _ _).mpr
    refine ⟨List.nodup_nil, fun sub ↦ ?_⟩
    simp [ClientConnection.new, LastSubscribes]
  have hstep : ∀ client message client', Step client message client' →
      client' = client.handleRequest message.request := fun _ _ _ h ↦ h
  exact Run.always_iff_each hstep hstart
    (fun _ _ _ _ _ h hs ↦ followsMessages_concat_iff h hs) (Run.foldl _ _ _)

/-- Unsubscribing from `address:abc` takes the address `bc` off the list. -/
theorem unsubscribe_other_address :
    ¬∀ (now : U64) (messages : List ClientMessage) (client : ClientConnection),
      Run Step (.new now) messages client → FollowsMessages messages client := by
  intro h
  have hrun := Run.foldl (fun client message ↦ client.handleRequest (ClientMessage.request message))
    (ClientConnection.new 0) [.subscribe (.address "bc"), .unsubscribe (.address "abc")]
  have hlast : LastSubscribes (.address "bc")
      [.subscribe (.address "bc"), .unsubscribe (.address "abc")] := by
    decide +kernel
  have hmem := ((h 0 _ _ hrun).mem_iff (.address "bc")).mpr hlast
  revert hmem
  decide +kernel

end SilverPow.WebSocket
