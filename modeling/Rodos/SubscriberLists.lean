import Rodos.HeaderCodec
import Rodos.LinkedSegment

namespace Rodos.SubscriberLists

open LinkedSegment

variable {S T σ : Type}

/-- The lists that a subscriber can be in, each a pointer to its first element. -/
inductive ListRef (T : Type)
  | subscriberList
  | mySubscribers (topic : T)
  deriving DecidableEq

structure Subscriber (T : Type) where
  topicInterface : T
  isAGateway : Bool

structure Heap (S T : Type) where
  next : S → Option S
  lists : ListRef T → Option S

section Startup

variable [DecidableEq S] [DecidableEq T]

def append (h : Heap S T) (this : S) (list : ListRef T) : Heap S T where
  next := Function.update h.next this (h.lists list)
  lists := Function.update h.lists list (some this)

/-- The constructors of the subscribers, one after the other. All lists are empty before. -/
def construct (memory : S → Option S) (created : List S) : Heap S T :=
  created.foldl (fun h s => append h s .subscriberList) ⟨memory, fun _ => none⟩

variable (defaultGatewayTopic : T) (subscribers : S → Subscriber T)

def home (s : S) : T :=
  if (subscribers s).isAGateway then defaultGatewayTopic else (subscribers s).topicInterface

def distribute : Nat → Option S → Heap S T → Option (Heap S T)
  | _, none, h => some h
  | 0, some _, _ => none
  | fuel + 1, some iter, h =>
    let next := h.next iter
    if (subscribers iter).isAGateway then
      distribute fuel next (append h iter (.mySubscribers defaultGatewayTopic))
    else distribute fuel next (append h iter (.mySubscribers (subscribers iter).topicInterface))

/-- The part of it that distributes the subscribers. -/
def initSystem (fuel : Nat) (h : Heap S T) : Option (Heap S T) :=
  distribute defaultGatewayTopic subscribers fuel (h.lists .subscriberList) h

end Startup

section Publish

structure TopicInterface where
  topicId : UInt32
  onlyLocal : Bool
  topicFilter : Bool

def allTopicsBelowThisAreBroadcast : UInt32 := 10

/-- What the handlers can change: the flags of the subscribers, the bit maps of the topics
and the data of the application, the message included. -/
structure World (S T σ : Type) where
  isEnabled : S → Bool
  receiverNodesBitMap : T → UInt32
  application : σ

/-- The virtual methods. -/
structure Handlers (S T σ : Type) where
  prolog : T → Nat → NetMsgInfo → World S T σ → World S T σ
  put : S → UInt32 → Nat → NetMsgInfo → World S T σ → UInt32 × World S T σ
  epilog : T → Nat → NetMsgInfo → World S T σ → World S T σ

/-- A message on its way: the subscribers of the topic that have had their turn, with their
flag at that moment, and those whose `put` has been called. -/
structure Publication (S T σ : Type) where
  world : World S T σ
  cnt : UInt32
  turns : List (S × Bool)
  puts : List S

def singleIndex : Nat → UInt32 → Int32 → Int32 → Int32
  | 0, _, _, indexFound => indexFound
  | fuel + 1, bitmap, index, indexFound =>
    if bitmap = 0 then indexFound
    else if bitmap &&& 1 ≠ 0 then
      if indexFound ≠ -2 then -1 else singleIndex fuel (bitmap >>> 1) (index + 1) index
    else singleIndex fuel (bitmap >>> 1) (index + 1) indexFound

def receiverNodesBitMap2Index [DecidableEq T] (topics : T → TopicInterface) (topic : T)
    (w : World S T σ) : Int32 × World S T σ :=
  if (topics topic).topicId < allTopicsBelowThisAreBroadcast then
    (-1, { w with receiverNodesBitMap := Function.update w.receiverNodesBitMap topic (~~~0) })
  else (singleIndex 32 (w.receiverNodesBitMap topic) 0 (-2), w)

variable (handlers : Handlers S T σ) (topicId : UInt32) (lenToSend : Nat)

def callPut (netMsgInfo : NetMsgInfo) (iter : S) (p : Publication S T σ) : Publication S T σ :=
  let r := handlers.put iter topicId lenToSend netMsgInfo p.world
  { p with world := r.2, cnt := p.cnt + r.1, puts := p.puts ++ [iter] }

def putToSubscribers (next : S → Option S) (netMsgInfo : NetMsgInfo) :
    Nat → Option S → Publication S T σ → Option (Publication S T σ)
  | _, none, p => some p
  | 0, some _, _ => none
  | fuel + 1, some iter, p =>
    let enabled := p.world.isEnabled iter
    let turn := { p with turns := p.turns ++ [(iter, enabled)] }
    if enabled then
      putToSubscribers next netMsgInfo fuel (next iter)
        (callPut handlers topicId lenToSend netMsgInfo iter turn)
    else putToSubscribers next netMsgInfo fuel (next iter) turn

def putToGateways (next : S → Option S) (netMsgInfo : NetMsgInfo) :
    Nat → Option S → Publication S T σ → Option (Publication S T σ)
  | _, none, p => some p
  | 0, some _, _ => none
  | fuel + 1, some iter, p =>
    putToGateways next netMsgInfo fuel (next iter)
      (callPut handlers topicId lenToSend netMsgInfo iter p)

def callFilter (topics : T → TopicInterface) (topic : T)
    (f : World S T σ → World S T σ) (p : Publication S T σ) : Publication S T σ :=
  if (topics topic).topicFilter then { p with world := f p.world } else p

/-- With `fuel` as a bound on the length of the lists. -/
def publishMsgPart [DecidableEq T] (defaultGatewayTopic : T) (topics : T → TopicInterface)
    (h : Heap S T) (fuel : Nat) (topic : T) (shallSendToNetwork : Bool) (netMsgInfo : NetMsgInfo)
    (w : World S T σ) : Option (Publication S T σ) := do
  let topicId := (topics topic).topicId
  let p := callFilter topics topic (handlers.prolog topic lenToSend netMsgInfo) ⟨w, 0, [], []⟩
  let p ← putToSubscribers handlers topicId lenToSend h.next netMsgInfo fuel
    (h.lists (.mySubscribers topic)) p
  let p := callFilter topics topic (handlers.epilog topic lenToSend netMsgInfo) p
  if (topics topic).onlyLocal then return p
  if !shallSendToNetwork then return p
  let index := receiverNodesBitMap2Index topics topic p.world
  let netMsgInfo := { netMsgInfo with
    receiverNode := index.1
    receiverNodesBitMap := index.2.receiverNodesBitMap topic }
  putToGateways handlers topicId lenToSend h.next netMsgInfo fuel
    (h.lists (.mySubscribers defaultGatewayTopic)) { p with world := index.2 }

end Publish

section Distribution

variable [DecidableEq S] [DecidableEq T]

/-- Every subscriber is in the list of its topic once and nowhere else. -/
def Distributed (defaultGatewayTopic : T) (subscribers : S → Subscriber T) (created : List S)
    (h : Heap S T) : Prop :=
  ∀ topic, ∃ l, Segment h.next (h.lists (.mySubscribers topic)) l none ∧ (∀ s ∈ l, s ∈ created) ∧
    ∀ s ∈ created, l.count s = if home defaultGatewayTopic subscribers s = topic then 1 else 0

theorem append_same {h : Heap S T} {this : S} {list : ListRef T} {l : List S}
    (hlist : Segment h.next (h.lists list) l none) (hthis : this ∉ l) :
    Segment (append h this list).next ((append h this list).lists list) (this :: l) none := by
  refine ⟨Function.update_self _ _ _, ?_⟩
  rw [append]
  dsimp only
  rw [Function.update_self]
  exact hlist.update_of_notMem hthis _

theorem append_other {h : Heap S T} {this : S} {list list' : ListRef T} {l : List S}
    (hlist : Segment h.next (h.lists list') l none) (hthis : this ∉ l) (hne : list' ≠ list) :
    Segment (append h this list).next ((append h this list).lists list') l none := by
  rw [append]
  dsimp only
  rw [Function.update_of_ne hne]
  exact hlist.update_of_notMem hthis _

theorem append_segments {h : Heap S T} {this : S} {lists : T → List S} (target : T)
    (hlists : ∀ topic, Segment h.next (h.lists (.mySubscribers topic)) (lists topic) none)
    (hthis : ∀ topic, this ∉ lists topic) (topic : T) :
    Segment (append h this (.mySubscribers target)).next
      ((append h this (.mySubscribers target)).lists (.mySubscribers topic))
      (Function.update lists target (this :: lists target) topic) none := by
  by_cases heq : topic = target
  · subst heq
    rw [Function.update_self]
    exact append_same (hlists topic) (hthis topic)
  · rw [Function.update_of_ne heq]
    exact append_other (hlists topic) (hthis topic) fun hsame => heq (ListRef.mySubscribers.inj hsame)

theorem construct_segment (memory : S → Option S) {created : List S} (hnodup : created.Nodup) :
    Segment (construct (T := T) memory created).next
        ((construct (T := T) memory created).lists .subscriberList) created.reverse none ∧
      ∀ topic : T, (construct memory created).lists (.mySubscribers topic) = none := by
  induction created using List.reverseRecOn with
  | nil => exact ⟨rfl, fun _ => rfl⟩
  | append_singleton created s ih =>
    rw [List.nodup_append] at hnodup
    obtain ⟨hcreated, _, hdisjoint⟩ := hnodup
    obtain ⟨hlist, hempty⟩ := ih hcreated
    have hnew : s ∉ created.reverse := fun hs =>
      hdisjoint s (List.mem_reverse.mp hs) s (List.mem_singleton_self s) rfl
    have hlast : construct (T := T) memory (created ++ [s]) =
        append (construct memory created) s .subscriberList := List.foldl_append
    rw [hlast, List.reverse_append]
    refine ⟨append_same hlist hnew, fun topic => ?_⟩
    have hne : ListRef.mySubscribers topic ≠ .subscriberList := nofun
    rw [append]
    dsimp only
    rw [Function.update_of_ne hne]
    exact hempty topic

variable (defaultGatewayTopic : T) (subscribers : S → Subscriber T)

theorem distribute_succ (fuel : Nat) (iter : S) (h : Heap S T) :
    distribute defaultGatewayTopic subscribers (fuel + 1) (some iter) h =
      distribute defaultGatewayTopic subscribers fuel (h.next iter)
        (append h iter (.mySubscribers (home defaultGatewayTopic subscribers iter))) := by
  rw [distribute, home]
  split <;> rfl

/-- The elements from `iter` on are still in the old list, those before it in the new ones. -/
theorem distribute_eq {h : Heap S T} {iter : Option S} {rest : List S} (lists : T → List S)
    (hrest : Segment h.next iter rest none) (hnodup : rest.Nodup)
    (hseparate : ∀ topic, ∀ s ∈ rest, s ∉ lists topic)
    (hlists : ∀ topic, Segment h.next (h.lists (.mySubscribers topic)) (lists topic) none)
    {fuel : Nat} (hfuel : rest.length ≤ fuel) :
    ∃ h', distribute defaultGatewayTopic subscribers fuel iter h = some h' ∧
      ∀ topic, Segment h'.next (h'.lists (.mySubscribers topic))
        ((rest.filter (home defaultGatewayTopic subscribers · = topic)).reverse ++ lists topic)
        none := by
  induction rest generalizing h iter lists fuel with
  | nil =>
    obtain rfl : iter = none := hrest
    refine ⟨h, by rw [distribute], hlists⟩
  | cons s rest ih =>
    obtain ⟨rfl, hrest⟩ := hrest
    obtain ⟨fuel, rfl⟩ := Nat.exists_eq_add_one.mpr (Nat.zero_lt_of_lt hfuel)
    obtain ⟨hs, hnodup⟩ := List.nodup_cons.mp hnodup
    have hfirst : ∀ topic, s ∉ lists topic := fun topic =>
      hseparate topic s List.mem_cons_self
    set target := home defaultGatewayTopic subscribers s with htarget
    have hseparate' : ∀ topic, ∀ s' ∈ rest,
        s' ∉ Function.update lists target (s :: lists target) topic := by
      intro topic s' hs'
      have hold := hseparate topic s' (List.mem_cons_of_mem s hs')
      by_cases heq : topic = target
      · subst heq
        rw [Function.update_self]
        exact fun hmem => (List.mem_cons.mp hmem).elim (fun heq => hs (heq ▸ hs')) hold
      · rw [Function.update_of_ne heq]
        exact hold
    obtain ⟨h', hdistribute, hlists'⟩ := ih (h := append h s (.mySubscribers target)) _
      (hrest.update_of_notMem hs _) hnodup hseparate' (append_segments target hlists hfirst)
      (Nat.le_of_succ_le_succ hfuel)
    refine ⟨h', ?_, fun topic => ?_⟩
    · rw [distribute_succ]
      exact hdistribute
    · have hlist := hlists' topic
      rw [List.filter_cons]
      by_cases heq : target = topic
      · rw [← heq, Function.update_self] at hlist
        rw [if_pos (decide_eq_true heq), List.reverse_cons, List.append_assoc, ← heq]
        exact hlist
      · rw [Function.update_of_ne (Ne.symm heq)] at hlist
        rw [if_neg (by simpa using heq)]
        exact hlist

end Distribution

section Puts

variable {handlers : Handlers S T σ} {topicId : UInt32} {lenToSend : Nat} {next : S → Option S}
  {netMsgInfo : NetMsgInfo} {start : Option S} {l : List S} {fuel : Nat}

theorem putToSubscribers_eq (hlist : Segment next start l none) (hfuel : l.length ≤ fuel)
    (p : Publication S T σ) :
    ∃ p' turns, putToSubscribers handlers topicId lenToSend next netMsgInfo fuel start p = some p' ∧
      turns.map Prod.fst = l ∧ p'.turns = p.turns ++ turns ∧
      p'.puts = p.puts ++ (turns.filter Prod.snd).map Prod.fst := by
  induction l generalizing start fuel p with
  | nil =>
    obtain rfl : start = none := hlist
    exact ⟨p, [], by rw [putToSubscribers], rfl, (List.append_nil _).symm, (List.append_nil _).symm⟩
  | cons iter l ih =>
    obtain ⟨rfl, hlist⟩ := hlist
    obtain ⟨fuel, rfl⟩ := Nat.exists_eq_add_one.mpr (Nat.zero_lt_of_lt hfuel)
    have hrest := ih hlist (Nat.le_of_succ_le_succ hfuel)
    set turn := { p with turns := p.turns ++ [(iter, p.world.isEnabled iter)] } with hturn
    rw [putToSubscribers]
    by_cases henabled : p.world.isEnabled iter = true
    · obtain ⟨p', turns, hp', hmap, hturns, hputs⟩ :=
        hrest (callPut handlers topicId lenToSend netMsgInfo iter turn)
      refine ⟨p', (iter, true) :: turns, ?_, congrArg (iter :: ·) hmap, ?_, ?_⟩
      · rw [if_pos henabled]
        exact hp'
      · rw [hturns]
        simp [callPut, hturn, henabled]
      · rw [hputs]
        simp [callPut, hturn]
    · obtain ⟨p', turns, hp', hmap, hturns, hputs⟩ := hrest turn
      refine ⟨p', (iter, false) :: turns, ?_, congrArg (iter :: ·) hmap, ?_, ?_⟩
      · rw [if_neg henabled]
        exact hp'
      · rw [hturns]
        simp [hturn, henabled]
      · rw [hputs]
        simp [hturn]

theorem putToGateways_eq (hlist : Segment next start l none) (hfuel : l.length ≤ fuel)
    (p : Publication S T σ) :
    ∃ p', putToGateways handlers topicId lenToSend next netMsgInfo fuel start p = some p' ∧
      p'.turns = p.turns ∧ p'.puts = p.puts ++ l := by
  induction l generalizing start fuel p with
  | nil =>
    obtain rfl : start = none := hlist
    exact ⟨p, by rw [putToGateways], rfl, (List.append_nil _).symm⟩
  | cons iter l ih =>
    obtain ⟨rfl, hlist⟩ := hlist
    obtain ⟨fuel, rfl⟩ := Nat.exists_eq_add_one.mpr (Nat.zero_lt_of_lt hfuel)
    obtain ⟨p', hp', hturns, hputs⟩ := ih hlist (Nat.le_of_succ_le_succ hfuel)
      (callPut handlers topicId lenToSend netMsgInfo iter p)
    refine ⟨p', ?_, hturns, ?_⟩
    · rw [putToGateways]
      exact hp'
    · rw [hputs]
      simp [callPut]

theorem callFilter_puts (topics : T → TopicInterface) (topic : T) (f : World S T σ → World S T σ)
    (p : Publication S T σ) :
    (callFilter topics topic f p).puts = p.puts ∧ (callFilter topics topic f p).turns = p.turns := by
  rw [callFilter]
  split <;> exact ⟨rfl, rfl⟩

theorem publishMsgPart_eq [DecidableEq T] {defaultGatewayTopic : T} {topics : T → TopicInterface}
    {h : Heap S T} {topic : T} {gateways : List S}
    (hlist : Segment h.next (h.lists (.mySubscribers topic)) l none)
    (hgateways : Segment h.next (h.lists (.mySubscribers defaultGatewayTopic)) gateways none)
    (hfuel : l.length ≤ fuel) (hfuel' : gateways.length ≤ fuel)
    (hlocal : (topics topic).onlyLocal = false) (w : World S T σ) :
    ∃ p, publishMsgPart handlers lenToSend defaultGatewayTopic topics h fuel topic true netMsgInfo w =
        some p ∧
      p.turns.map Prod.fst = l ∧
      p.puts = (p.turns.filter Prod.snd).map Prod.fst ++ gateways := by
  obtain ⟨hputs₀, hturns₀⟩ := callFilter_puts topics topic
    (handlers.prolog topic lenToSend netMsgInfo) ⟨w, 0, [], []⟩
  obtain ⟨p₁, turns, hp₁, hmap, hturns₁, hputs₁⟩ := @putToSubscribers_eq S T σ handlers
    (topics topic).topicId lenToSend h.next netMsgInfo _ l fuel hlist hfuel
    (callFilter topics topic (handlers.prolog topic lenToSend netMsgInfo) ⟨w, 0, [], []⟩)
  obtain ⟨hputs₂, hturns₂⟩ := callFilter_puts topics topic
    (handlers.epilog topic lenToSend netMsgInfo) p₁
  set p₂ := callFilter topics topic (handlers.epilog topic lenToSend netMsgInfo) p₁ with hp₂
  obtain ⟨p₃, hp₃, hturns₃, hputs₃⟩ := @putToGateways_eq S T σ handlers (topics topic).topicId
    lenToSend h.next { netMsgInfo with
      receiverNode := (receiverNodesBitMap2Index topics topic p₂.world).1
      receiverNodesBitMap :=
        (receiverNodesBitMap2Index topics topic p₂.world).2.receiverNodesBitMap topic }
    _ gateways fuel hgateways hfuel'
    { p₂ with world := (receiverNodesBitMap2Index topics topic p₂.world).2 }
  rw [hturns₀, List.nil_append] at hturns₁
  rw [hputs₀, List.nil_append] at hputs₁
  refine ⟨p₃, ?_, ?_, ?_⟩
  · rw [publishMsgPart]
    simp only [hp₁, Option.bind_eq_bind, Option.bind_some, hlocal]
    exact hp₃
  · rw [hturns₃, hturns₂, hturns₁, hmap]
  · rw [hputs₃, hputs₂, hputs₁, hturns₃, hturns₂, hturns₁]

end Puts

section Startup

variable [DecidableEq S] [DecidableEq T]

/-- The subscribers of the topic have their turn once. Those that are enabled then are put to
once, and so are the gateways. -/
structure PutOnce (defaultGatewayTopic : T) (subscribers : S → Subscriber T) (created : List S)
    (topic : T) (p : Publication S T σ) : Prop where
  turns : ∀ s ∈ created, home defaultGatewayTopic subscribers s = topic →
    (p.turns.map Prod.fst).count s = 1
  enabled : ∀ s, (s, true) ∈ p.turns → p.puts.count s = 1
  disabled : ∀ s, (s, false) ∈ p.turns → p.puts.count s = 0
  gateways : ∀ s ∈ created, (subscribers s).isAGateway = true → p.puts.count s = 1

variable (defaultGatewayTopic : T) (subscribers : S → Subscriber T)

def homes (created : List S) (topic : T) : List S :=
  created.filter (home defaultGatewayTopic subscribers · = topic)

variable {defaultGatewayTopic subscribers} {created : List S} {topic : T}

omit [DecidableEq S] in
theorem mem_homes {s : S} : s ∈ homes defaultGatewayTopic subscribers created topic ↔
    s ∈ created ∧ home defaultGatewayTopic subscribers s = topic := by
  rw [homes, List.mem_filter, decide_eq_true_iff]

theorem count_homes (hnodup : created.Nodup) {s : S} (hs : s ∈ created) :
    (homes defaultGatewayTopic subscribers created topic).count s =
      if home defaultGatewayTopic subscribers s = topic then 1 else 0 := by
  split
  · rename_i hhome
    exact List.count_eq_one_of_mem (hnodup.filter _) (mem_homes.mpr ⟨hs, hhome⟩)
  · rename_i hhome
    exact List.count_eq_zero.mpr fun hmem => hhome (mem_homes.mp hmem).2

theorem distribute_created (memory : S → Option S) (hnodup : created.Nodup) {fuel : Nat}
    (hfuel : created.length ≤ fuel) :
    ∃ h, initSystem defaultGatewayTopic subscribers fuel (construct memory created) = some h ∧
      ∀ topic, Segment h.next (h.lists (.mySubscribers topic))
        (homes defaultGatewayTopic subscribers created topic) none := by
  obtain ⟨hlist, hempty⟩ := construct_segment (T := T) memory hnodup
  have hfuel' : created.reverse.length ≤ fuel := by rwa [List.length_reverse]
  obtain ⟨h, hdistribute, hlists⟩ := distribute_eq defaultGatewayTopic subscribers (fun _ => [])
    hlist (List.nodup_reverse.mpr hnodup) (fun _ _ _ => List.not_mem_nil) hempty hfuel'
  refine ⟨h, hdistribute, fun topic => ?_⟩
  have hlist' := hlists topic
  rwa [List.append_nil, ← List.filter_reverse, List.reverse_reverse] at hlist'

theorem distributed_of_segments {h : Heap S T} (hnodup : created.Nodup)
    (hlists : ∀ topic, Segment h.next (h.lists (.mySubscribers topic))
      (homes defaultGatewayTopic subscribers created topic) none) :
    Distributed defaultGatewayTopic subscribers created h := fun topic =>
  ⟨_, hlists topic, fun _ hs => (mem_homes.mp hs).1, fun _ hs => count_homes hnodup hs⟩

theorem putOnce_of_eq (hnodup : created.Nodup) (htopic : topic ≠ defaultGatewayTopic)
    {p : Publication S T σ}
    (hturns : p.turns.map Prod.fst = homes defaultGatewayTopic subscribers created topic)
    (hputs : p.puts = (p.turns.filter Prod.snd).map Prod.fst ++
      homes defaultGatewayTopic subscribers created defaultGatewayTopic) :
    PutOnce defaultGatewayTopic subscribers created topic p := by
  have hdistinct : (p.turns.map Prod.fst).Nodup := hturns ▸ hnodup.filter _
  have hhome : ∀ s b, (s, b) ∈ p.turns → home defaultGatewayTopic subscribers s = topic := by
    intro s b hs
    have hmem : s ∈ p.turns.map Prod.fst := List.mem_map_of_mem hs
    rw [hturns] at hmem
    exact (mem_homes.mp hmem).2
  have hnoGateway : ∀ s b, (s, b) ∈ p.turns →
      (homes defaultGatewayTopic subscribers created defaultGatewayTopic).count s = 0 := by
    intro s b hs
    refine List.count_eq_zero.mpr fun hmem => htopic ?_
    rw [← hhome s b hs, (mem_homes.mp hmem).2]
  refine ⟨fun s hs hs' => ?_, fun s hs => ?_, fun s hs => ?_, fun s hs hgateway => ?_⟩
  · rw [hturns, count_homes hnodup hs, if_pos hs']
  · rw [hputs, List.count_append, hnoGateway s true hs]
    have hsublist : ((p.turns.filter Prod.snd).map Prod.fst).Sublist (p.turns.map Prod.fst) :=
      List.filter_sublist.map _
    exact List.count_eq_one_of_mem (hdistinct.sublist hsublist)
      (List.mem_map_of_mem (List.mem_filter.mpr ⟨hs, rfl⟩))
  · rw [hputs, List.count_append, hnoGateway s false hs, Nat.add_zero, List.count_eq_zero]
    intro hmem
    obtain ⟨r, hr, rfl⟩ := List.mem_map.mp hmem
    obtain ⟨hr, henabled⟩ := List.mem_filter.mp hr
    have hsame := List.inj_on_of_nodup_map hdistinct hr hs rfl
    rw [hsame] at henabled
    cases henabled
  · have hs' : home defaultGatewayTopic subscribers s = defaultGatewayTopic := if_pos hgateway
    rw [hputs, List.count_append, count_homes hnodup hs, if_pos hs', Nat.add_eq_right,
      List.count_eq_zero]
    intro hmem
    obtain ⟨r, hr, rfl⟩ := List.mem_map.mp hmem
    exact htopic ((hhome r.1 r.2 (List.mem_of_mem_filter hr)).symm.trans hs')

/-- After the start every subscriber is in its list, and what is published on a topic other
than that of the gateways comes to each of them once. -/
theorem subscribers_put_once (memory : S → Option S) (hnodup : created.Nodup) {fuel : Nat}
    (hfuel : created.length ≤ fuel) :
    ∃ h, initSystem defaultGatewayTopic subscribers fuel (construct memory created) = some h ∧
      Distributed defaultGatewayTopic subscribers created h ∧
      ∀ (handlers : Handlers S T σ) (lenToSend : Nat) (topics : T → TopicInterface) (topic : T)
        (netMsgInfo : NetMsgInfo) (w : World S T σ),
        topic ≠ defaultGatewayTopic → (topics topic).onlyLocal = false →
        ∃ p, publishMsgPart handlers lenToSend defaultGatewayTopic topics h fuel topic true
            netMsgInfo w = some p ∧
          PutOnce defaultGatewayTopic subscribers created topic p := by
  obtain ⟨h, hdistribute, hlists⟩ := @distribute_created S T _ _ defaultGatewayTopic subscribers
    created memory hnodup fuel hfuel
  refine ⟨h, hdistribute, distributed_of_segments hnodup hlists, ?_⟩
  intro handlers lenToSend topics topic netMsgInfo w htopic hlocal
  have hbound : ∀ topic, (homes defaultGatewayTopic subscribers created topic).length ≤ fuel :=
    fun topic => (List.length_filter_le _ _).trans hfuel
  obtain ⟨p, hp, hturns, hputs⟩ := @publishMsgPart_eq S T σ handlers lenToSend netMsgInfo _ fuel _
    _ topics h topic _ (hlists topic) (hlists defaultGatewayTopic) (hbound topic) (hbound _) hlocal w
  exact ⟨p, hp, putOnce_of_eq hnodup htopic hturns hputs⟩

end Startup

section

/-- A subscriber, a gateway and a router; the topic of the gateways is `true`. -/
def three : Fin 3 → Subscriber Bool
  | 0 => ⟨false, false⟩
  | 1 => ⟨true, true⟩
  | 2 => ⟨true, false⟩

def plainTopics : Bool → TopicInterface := fun topic => ⟨if topic then 0 else 1000, false, false⟩

def countPuts : Handlers (Fin 3) Bool Nat where
  prolog _ _ _ w := w
  put _ _ _ _ w := (1, { w with application := w.application + 1 })
  epilog _ _ _ w := w

def noInfo : NetMsgInfo := ⟨0, 0, 0, 0, 0, 0, 0⟩

def allEnabled : World (Fin 3) Bool Nat := ⟨fun _ => true, fun _ => 0, 0⟩

theorem subscribers_put_once_three : ∃ h p,
    initSystem true three 3 (construct (fun _ => none) [0, 1, 2]) = some h ∧
      publishMsgPart countPuts 8 true plainTopics h 3 false true noInfo allEnabled = some p ∧
      PutOnce true three [0, 1, 2] false p := by
  obtain ⟨h, hdistribute, _, hpublish⟩ := @subscribers_put_once (Fin 3) Bool Nat _ _ true three
    [0, 1, 2] (fun _ => none) (by decide) 3 (by decide)
  obtain ⟨p, hp, honce⟩ := hpublish countPuts 8 plainTopics false noInfo allEnabled (by decide) rfl
  exact ⟨h, p, hdistribute, hp, honce⟩

/-- What is published on the topic of the gateways comes to the gateway twice. -/
theorem put_twice : ∃ h p,
    initSystem true three 3 (construct (fun _ => none) [0, 1, 2]) = some h ∧
      publishMsgPart countPuts 8 true plainTopics h 3 true true noInfo allEnabled = some p ∧
      (1, true) ∈ p.turns ∧ p.puts.count 1 = 2 ∧ ¬PutOnce true three [0, 1, 2] true p := by
  refine ⟨_, _, rfl, rfl, by decide, by decide, fun honce => ?_⟩
  exact absurd (honce.enabled 1 (by decide)) (by decide)

end

end Rodos.SubscriberLists
