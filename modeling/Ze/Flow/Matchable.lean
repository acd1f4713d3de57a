import Ze.Flow.Bitmask

/-!
# The check against packets

What a packet is, as far as a rule can tell, when it matches a component, and that `checkMatchable`
accepts a rule exactly where some packet matches every component of it (`checkMatchable_iff`).
-/

namespace Ze.Flow

open Ze.Net Ze.Lib List
open BitVec (allOnes getLsbD_and getLsbD_zero le_def ofNat toNat_ofNat toNat_setWidth)
open Bool (and_eq_true)

/-! ## Packets -/

/-- Source: RFC 8955 Section 4.2.2.12, as unmatchable_values.go lists the states. -/
inductive FragmentState
  | unfragmented
  | first
  | middle
  | last

/-- The bits is-fragment, first-fragment and last-fragment of a packet. Source: RFC 8955 Section
4.2.2.12. -/
def FragmentState.bits : FragmentState → BitVec 64
  | unfragmented => 0#64
  | first => flowFragFirstFragment
  | middle => flowFragIsFragment
  | last => flowFragIsFragment ||| flowFragLastFragment

/-- The transport header is in an unfragmented packet and in a first fragment. Source: RFC 8955
Section 4.2.2.4. -/
def FragmentState.carriesTransport : FragmentState → Bool
  | unfragmented => true
  | first => true
  | _ => false

/-- What a rule reads of a packet. The ports, the ICMP fields and the TCP bits are those of the
transport header, and mean something only for the protocols that have them. The total length of an
IPv6 packet has no field of its own, so that it is bounded by the operand alone. Source: RFC 8955
Section 4.2.2, RFC 8956 Section 3. -/
structure Packet (afi : Afi) where
  destination : Addr
  source : Addr
  destinationLen : destination.bitLen = afi.bitLen
  sourceLen : source.bitLen = afi.bitLen
  protocol : BitVec 8
  upperLayer : afi = .ipv6 → protocol.toNat ∉ [0, 43, 44, 50, 51, 60]
  fragment : FragmentState
  dontFragment : Bool
  destPort : BitVec 16
  sourcePort : BitVec 16
  icmpType : BitVec 8
  icmpCode : BitVec 8
  tcpBits : BitVec 16
  length : BitVec 64
  lengthFits : afi = .ipv4 → length ≤ 0xFFFF#64
  dscp : BitVec 6
  flowLabel : BitVec 20

section

variable {afi : Afi} (p : Packet afi)

/-- The bits that the fragment component reads; IPv6 has no don't-fragment. Source: RFC 8955 Section
4.2.2.12, RFC 8956 Section 3.6. -/
def Packet.fragmentBits : BitVec 64 :=
  p.fragment.bits ||| if afi = .ipv4 ∧ p.dontFragment = true then flowFragDontFragment else 0#64

/-- Source: RFC 8955 Section 4.2.2.4. -/
def Packet.HasPorts : Prop :=
  p.fragment.carriesTransport = true ∧ (p.protocol = 6#8 ∨ p.protocol = 17#8)

/-- Source: RFC 8955 Section 4.2.2.7, RFC 8956 Section 3.4. -/
def Packet.HasIcmp : Prop :=
  p.fragment.carriesTransport = true ∧ p.protocol = if afi = .ipv6 then 58#8 else 1#8

/-- Source: RFC 8955 Section 4.2.2.9. -/
def Packet.HasTcp : Prop := p.fragment.carriesTransport = true ∧ p.protocol = 6#8

/-- The packet matches the operator list of a component. Source: RFC 8955 Section 4.2.2, RFC 8956
Section 3. -/
def Packet.Reads (t : ComponentType) (list : List FlowMatch) : Prop :=
  match t with
  | .destPrefix | .sourcePrefix => False
  | .ipProtocol => Admits list (p.protocol.setWidth 64)
  | .port =>
    p.HasPorts ∧ (Admits list (p.destPort.setWidth 64) ∨ Admits list (p.sourcePort.setWidth 64))
  | .destPort => p.HasPorts ∧ Admits list (p.destPort.setWidth 64)
  | .sourcePort => p.HasPorts ∧ Admits list (p.sourcePort.setWidth 64)
  | .icmpType => p.HasIcmp ∧ Admits list (p.icmpType.setWidth 64)
  | .icmpCode => p.HasIcmp ∧ Admits list (p.icmpCode.setWidth 64)
  | .tcpFlags => p.HasTcp ∧ AdmitsBits (allOnes 64) list (p.tcpBits.setWidth 64)
  | .packetLength => Admits list p.length
  | .dscp => Admits list (p.dscp.setWidth 64)
  | .fragment => AdmitsBits (fragmentMask afi) list p.fragmentBits
  | .flowLabel => afi = .ipv6 ∧ Admits list (p.flowLabel.setWidth 64)

/-- The address agrees with the pattern from the offset to the length. Source: RFC 8956 Section 3.1.
-/
def PrefixComponent.Covers (c : PrefixComponent) (a : Addr) : Prop :=
  ∀ i, c.offset.toNat ≤ i → i < c.pfx.bits →
    a.value.testBit (a.bitLen - 1 - i) = c.pfx.addr.value.testBit (a.bitLen - 1 - i)

/-- Source: RFC 8955 Section 4.2. -/
def Packet.Matches : FlowComponent → Prop
  | .pfx c => c.Covers (if c.compType = .destPrefix then p.destination else p.source)
  | .numeric c => p.Reads c.compType c.list

end

/-! ## Sets of protocols -/

lemma getLsbD_protocolsOf_foldl (ps : List ℕ) (s : ProtocolSet) (i : ℕ) :
    (ps.foldl (fun s p => s ||| (1#256 <<< p)) s).getLsbD i
      = (s.getLsbD i || (decide (i < 256) && ps.contains i)) := by
  induction ps generalizing s with
  | nil => simp
  | cons p ps ih =>
    have hone : (1#256 <<< p).getLsbD i = (decide (i < 256) && (i == p)) := by
      rw [BitVec.getLsbD_shiftLeft, BitVec.getLsbD_one]
      grind
    rw [foldl_cons, ih, BitVec.getLsbD_or, hone, contains_cons, Bool.and_or_distrib_left,
      Bool.or_assoc]

lemma getLsbD_protocolsOf (ps : List ℕ) (i : ℕ) :
    (protocolsOf ps).getLsbD i = (decide (i < 256) && ps.contains i) := by
  unfold protocolsOf
  rw [getLsbD_protocolsOf_foldl, getLsbD_zero, Bool.false_or]

variable {i : ℕ} {ε : Type} {c : Bool}

lemma getLsbD_upperLayerProtocols {afi : Afi} {list : List FlowMatch} :
    (upperLayerProtocols afi list).getLsbD i ↔
      i < 256 ∧ Admits list (ofNat 64 i) ∧
        (afi = .ipv6 → i ∉ [0, 43, 44, 50, 51, 60]) := by
  have hadm : (protocolsAdmitted list).getLsbD i ↔ i < 256 ∧ Admits list (ofNat 64 i) := by
    unfold protocolsAdmitted
    rw [getLsbD_bitsWhere, and_eq_true, decide_eq_true_eq, expressionAdmits_numeric]
  unfold upperLayerProtocols
  by_cases h6 : afi = .ipv6
  · rw [if_pos h6, getLsbD_and, and_eq_true, hadm, BitVec.getLsbD_not,
      ipv6ExtensionHeaders, getLsbD_protocolsOf]
    by_cases hi : i < 256
    · simp [hi, h6]
    · simp [hi]
  · rw [if_neg h6, hadm]
    simp [h6]

/-- The protocols that a transport component needs. Source: unmatchable.go transportProtocols.
-/
def needs (t : ComponentType) (afi : Afi) : List ℕ :=
  match t with
  | .port | .destPort | .sourcePort => [6, 17]
  | .icmpType | .icmpCode => if afi = .ipv6 then [58] else [1]
  | .tcpFlags => [6]
  | _ => []

lemma getLsbD_transportProtocols {t : ComponentType} {afi : Afi} :
    (transportProtocols t afi).getLsbD i ↔ i < 256 ∧ i ∈ needs t afi := by
  have heq : transportProtocols t afi = protocolsOf (needs t afi) := by
    cases t <;> cases afi <;> rfl
  rw [heq, getLsbD_protocolsOf, and_eq_true, decide_eq_true_eq, contains_iff_mem]

lemma needs_subset (t : ComponentType) (afi : Afi) : ∀ i ∈ needs t afi, i ∈ [1, 6, 17, 58] := by
  cases t <;> cases afi <;> decide

lemma not_extension_of_transport (h : i ∈ [1, 6, 17, 58]) : i ∉ [0, 43, 44, 50, 51, 60] := by
  simp only [mem_cons, not_mem_nil, or_false, not_or] at h ⊢
  omega

/-! ## The transport components -/

/-- A protocol serves every transport component of a list that is there. -/
def Serves (afi : Afi) (has : ComponentType → Bool) (types : List ComponentType) (i : ℕ) : Prop :=
  ∀ t ∈ types, has t = true → (transportProtocols t afi).getLsbD i = true

/-- Whether a protocol is in the set carried along; there is none before the first component. -/
def Left : Option (ComponentType × ProtocolSet) → ℕ → Prop
  | none, _ => True
  | some (_, required), i => required.getLsbD i = true

def NotEmpty (acc : Option (ComponentType × ProtocolSet)) : Prop :=
  ∀ first required, acc = some (first, required) → required ≠ 0#256

section

variable {afi : Afi} {has : ComponentType → Bool}

variable {types : List ComponentType}

lemma serves_cons {t : ComponentType} {i : ℕ} :
    Serves afi has (t :: types) i ↔
      (has t → (transportProtocols t afi).getLsbD i) ∧ Serves afi has types i := by
  unfold Serves
  rw [forall_mem_cons]

lemma transportProtocols_ne_zero {t : ComponentType} (ht : t ∈ transportTypes) (afi : Afi) :
    transportProtocols t afi ≠ 0#256 := by
  have hne : ∃ i ∈ needs t afi, i < 256 := by
    revert ht
    cases t <;> cases afi <;> decide
  obtain ⟨i, hi, hlt⟩ := hne
  exact ne_zero_iff_getLsbD.2 ⟨i, getLsbD_transportProtocols.2 ⟨hlt, hi⟩⟩

lemma narrowProtocols_spec (htypes : ∀ t ∈ types, t ∈ transportTypes)
    {acc : Option (ComponentType × ProtocolSet)} (hne : NotEmpty acc) :
    (∀ e, narrowProtocols afi has types acc = .error e →
      ∀ i, ¬ (Left acc i ∧ Serves afi has types i)) ∧
    (∀ acc', narrowProtocols afi has types acc = .ok acc' →
      NotEmpty acc' ∧ (∀ i, Left acc' i ↔ Left acc i ∧ Serves afi has types i) ∧
        (acc' = none ↔ acc = none ∧ ∀ t ∈ types, has t = false)) := by
  induction types generalizing acc with
  | nil =>
    refine ⟨by simp [narrowProtocols], ?_⟩
    rintro acc' h
    obtain rfl : acc = acc' := by simpa [narrowProtocols] using h
    exact ⟨hne, by simp [Serves], by simp⟩
  | cons t types ih =>
    have hrest := fun t' ht' => htypes t' (mem_cons_of_mem t ht')
    unfold narrowProtocols
    by_cases hhas : has t = false
    · obtain ⟨h1, h2⟩ := ih hrest hne
      simp only [hhas, Bool.not_false, if_true, serves_cons, Bool.false_eq_true, false_imp_iff,
        true_and, forall_mem_cons]
      exact ⟨h1, h2⟩
    rw [Bool.not_eq_false] at hhas
    have hneed := transportProtocols_ne_zero (htypes t mem_cons_self) afi
    simp only [hhas, Bool.not_true, Bool.false_eq_true, if_false, serves_cons, forall_const,
      forall_mem_cons, Bool.true_eq_false, false_and, and_false, iff_false]
    rcases acc with _ | ⟨first, required⟩
    · have hne' : NotEmpty (some (t, transportProtocols t afi)) := by
        rintro _ _ h
        obtain ⟨-, rfl⟩ := Prod.mk.inj (Option.some.inj h)
        exact hneed
      obtain ⟨h1, h2⟩ := ih hrest hne'
      refine ⟨fun e he i => ?_, fun acc' hok => ?_⟩
      · have := h1 e he i
        simpa only [Left, true_and] using this
      · obtain ⟨h3, h4, h5⟩ := h2 acc' hok
        refine ⟨h3, fun i => ?_, by simpa using h5⟩
        rw [h4 i]
        simp only [Left, true_and]
    · simp only
      by_cases hz : required &&& transportProtocols t afi = 0#256
      · rw [if_pos hz]
        refine ⟨fun e _ i hi => ?_, fun acc' hok => by cases hok⟩
        have hbit : (required &&& transportProtocols t afi).getLsbD i := by
          rw [getLsbD_and, and_eq_true]
          exact ⟨hi.1, hi.2.1⟩
        rw [hz, getLsbD_zero] at hbit
        cases hbit
      · rw [if_neg hz]
        have hne' : NotEmpty (some (first, required &&& transportProtocols t afi)) := by
          rintro _ _ h
          obtain ⟨-, rfl⟩ := Prod.mk.inj (Option.some.inj h)
          exact hz
        obtain ⟨h1, h2⟩ := ih hrest hne'
        simp only [Left, getLsbD_and, and_eq_true, and_assoc] at h1 h2
        refine ⟨h1, fun acc' hok => ?_⟩
        obtain ⟨h3, h4, h5⟩ := h2 acc' hok
        exact ⟨h3, h4, by simpa using h5⟩

lemma narrowProtocols_transport (afi : Afi) (has : ComponentType → Bool) :
    (∀ e, narrowProtocols afi has transportTypes none = .error e →
      ∀ i, ¬ Serves afi has transportTypes i) ∧
    (∀ acc, narrowProtocols afi has transportTypes none = .ok acc →
      NotEmpty acc ∧ (∀ i, Left acc i ↔ Serves afi has transportTypes i) ∧
        (acc = none ↔ ∀ t ∈ transportTypes, has t = false)) := by
  have hnone : NotEmpty none := fun _ _ h => by cases h
  have hspec := @narrowProtocols_spec afi has transportTypes (fun _ h => h) none hnone
  simpa only [Left, true_and] using hspec

end

/-! ## What each check asks -/

lemma exists_le_iff {w : ℕ} (hw : w ≤ 64) {q : BitVec 64 → Prop} :
    (∃ x, x ≤ ofNat 64 (2 ^ w - 1) ∧ q x) ↔ ∃ b : BitVec w, q (b.setWidth 64) := by
  have hpow : 2 ^ w ≤ 2 ^ 64 := Nat.pow_le_pow_right (by decide) hw
  have hpos := Nat.two_pow_pos w
  have hmax : (ofNat 64 (2 ^ w - 1)).toNat = 2 ^ w - 1 := by
    rw [toNat_ofNat, Nat.mod_eq_of_lt (by omega)]
  constructor
  · rintro ⟨x, hx, hq⟩
    refine ⟨x.setWidth w, ?_⟩
    rw [le_def, hmax] at hx
    have hback : (x.setWidth w).setWidth 64 = x := by
      apply BitVec.eq_of_toNat_eq
      rw [toNat_setWidth, toNat_setWidth,
        Nat.mod_eq_of_lt (by omega : x.toNat < 2 ^ w), Nat.mod_eq_of_lt x.isLt]
    rw [hback]
    exact hq
  · rintro ⟨b, hq⟩
    refine ⟨b.setWidth 64, ?_, hq⟩
    rw [le_def, hmax, toNat_setWidth, Nat.mod_eq_of_lt (by omega)]
    omega

lemma seq_eq_ok {x : Except ε Unit} {k : Unit → Except ε Unit} :
    (x >>= k) = .ok () ↔ x = .ok () ∧ k () = .ok () := by
  rcases x with e | ⟨⟩ <;> simp [bind, Except.bind]

lemma refuse_eq_ok {text : String} : refuse c text = .ok () ↔ c = false := by
  cases c <;> simp [refuse]

lemma when_eq_ok {check : Except String Unit} : when c check = .ok () ↔ (c → check = .ok ()) := by
  cases c <;> simp [when]

lemma and_not_eq_false {b : Bool} : (b && !c) = false ↔ (b → c) := by
  cases b <;> cases c <;> decide

lemma forM_eq_ok {α : Type} {f : α → Except ε Unit} {l : List α} :
    l.forM f = .ok () ↔ ∀ a ∈ l, f a = .ok () := by
  induction l with
  | nil => simp [pure, Except.pure]
  | cons a l ih =>
    rw [forM_eq_forM, forM_cons, forall_mem_cons, ← ih, seq_eq_ok]
    rfl

section

variable {afi : Afi} {has : ComponentType → Bool} {lists : ComponentType → List FlowMatch}

lemma checkUpperLayerValues_eq_ok {list : List FlowMatch} :
    checkUpperLayerValues afi list = .ok () ↔
      ∃ i, (upperLayerProtocols afi list).getLsbD i := by
  unfold checkUpperLayerValues
  rw [← ne_zero_iff_getLsbD]
  by_cases hz : protocolsAdmitted list = 0#256
  · have hup : upperLayerProtocols afi list = 0#256 := by
      unfold upperLayerProtocols
      rw [hz, BitVec.zero_and, ite_self]
    simp [hz, hup]
  · rw [if_neg hz]
    by_cases hup : upperLayerProtocols afi list = 0#256 <;> simp [hup]

lemma checkValues_eq_ok {t : ComponentType} :
    checkValues afi has lists t = .ok () ↔
      (has t → ∃ x, x ≤ componentValueMax t afi ∧ Admits (lists t) x) := by
  unfold checkValues
  rw [← isEmpty_admittedRanges, refuse_eq_ok]
  cases has t <;> simp

lemma fragmentAdmitted_iff {list : List FlowMatch} {states : List (BitVec 64)} :
    fragmentAdmitted afi list states ↔
      ∃ state ∈ states, ∃ df : Bool, AdmitsBits (fragmentMask afi) list
        (state ||| if afi = .ipv4 ∧ df = true then flowFragDontFragment else 0#64) := by
  have hmask : fragmentDefined afi = fragmentMask afi := by cases afi <;> rfl
  unfold fragmentAdmitted
  simp only [any_eq_true, Bool.or_eq_true, and_eq_true, expressionAdmits_bitmask, hmask]
  cases afi with
  | ipv4 => simp [Bool.exists_bool]
  | ipv6 => simp

lemma checkComponentValues_eq_ok :
    checkComponentValues afi has lists = .ok () ↔
      (has .ipProtocol →
        ∃ i, (upperLayerProtocols afi (lists .ipProtocol)).getLsbD i) ∧
      (∀ t ∈ valueComponentTypes, has t →
        ∃ x, x ≤ componentValueMax t afi ∧ Admits (lists t) x) ∧
      (has .tcpFlags →
        ∃ bits : BitVec 16, AdmitsBits (allOnes 64) (lists .tcpFlags) (bits.setWidth 64)) ∧
      (has .fragment →
        fragmentAdmitted afi (lists .fragment) packetFragmentStates) := by
  have hvalues : valueComponentTypes.forM (checkValues afi has lists) = .ok () ↔
      ∀ t ∈ valueComponentTypes, has t →
        ∃ x, x ≤ componentValueMax t afi ∧ Admits (lists t) x := by
    simp only [forM_eq_ok, checkValues_eq_ok]
  rw [← hvalues, ← checkUpperLayerValues_eq_ok, ← tcpFlagsAdmitted_iff]
  unfold checkComponentValues
  rw [seq_eq_ok, seq_eq_ok, seq_eq_ok, when_eq_ok, refuse_eq_ok, refuse_eq_ok, and_not_eq_false,
    and_not_eq_false]

lemma checkPortValues_eq_ok :
    checkPortValues has lists = .ok () ↔
      (has .port → has .destPort → has .sourcePort →
        ∃ x, x ≤ 0xFFFF#64 ∧ Admits (lists .port) x ∧
          (Admits (lists .destPort) x ∨ Admits (lists .sourcePort) x)) := by
  have hmeet : ∀ t, rangesMeet (admittedRanges (lists .port) 0xFFFF#64)
      (admittedRanges (lists t) 0xFFFF#64) ↔
        ∃ x, x ≤ 0xFFFF#64 ∧ Admits (lists .port) x ∧ Admits (lists t) x := by
    intro t
    obtain ⟨ha, hpa, hina⟩ := admittedRanges_spec (lists .port) 0xFFFF#64
    obtain ⟨hb, hpb, hinb⟩ := admittedRanges_spec (lists t) 0xFFFF#64
    rw [rangesMeet_iff (ha.imp Apart.lt) (hb.imp Apart.lt) hpa hpb]
    simp only [hina, hinb]
    constructor
    · rintro ⟨x, ⟨h1, h2⟩, -, h3⟩
      exact ⟨x, h1, h2, h3⟩
    · rintro ⟨x, h1, h2, h3⟩
      exact ⟨x, ⟨h1, h2⟩, h1, h3⟩
  have hsplit : (∃ x, x ≤ 0xFFFF#64 ∧ Admits (lists .port) x ∧
      (Admits (lists .destPort) x ∨ Admits (lists .sourcePort) x)) ↔
        rangesMeet (admittedRanges (lists .port) 0xFFFF#64)
          (admittedRanges (lists .destPort) 0xFFFF#64) ∨
        rangesMeet (admittedRanges (lists .port) 0xFFFF#64)
          (admittedRanges (lists .sourcePort) 0xFFFF#64) := by
    rw [hmeet, hmeet, ← exists_or]
    simp only [and_or_left]
  rw [hsplit]
  unfold checkPortValues
  cases has .port with
  | false => simp
  | true =>
    cases has .destPort with
    | false => simp
    | true =>
      cases has .sourcePort with
      | false => simp
      | true =>
        simp only [Bool.not_true, Bool.false_eq_true, if_false, forall_const]
        split_ifs with h1 h2 <;> simp [*]

lemma checkTransport_eq_ok {first : ComponentType} {required : ProtocolSet} :
    checkTransport afi has lists first required = .ok () ↔
      (has .ipProtocol → ∃ i, required.getLsbD i ∧
        (upperLayerProtocols afi (lists .ipProtocol)).getLsbD i) ∧
      (has .fragment →
        fragmentAdmitted afi (lists .fragment) transportFragmentStates) := by
  have hmeet : required &&& upperLayerProtocols afi (lists .ipProtocol) ≠ 0#256 ↔
      ∃ i, required.getLsbD i ∧
        (upperLayerProtocols afi (lists .ipProtocol)).getLsbD i := by
    rw [ne_zero_iff_getLsbD]
    simp only [getLsbD_and, and_eq_true]
  unfold checkTransport
  rw [seq_eq_ok, refuse_eq_ok, refuse_eq_ok, and_not_eq_false, ← hmeet]
  cases has .ipProtocol <;> simp

lemma checkMatchable_eq_ok :
    checkMatchable afi has (some lists) = .ok () ↔
      ∃ acc, narrowProtocols afi has transportTypes none = .ok acc ∧
        checkComponentValues afi has lists = .ok () ∧ checkPortValues has lists = .ok () ∧
        ∀ first required, acc = some (first, required) →
          checkTransport afi has lists first required = .ok () := by
  unfold checkMatchable
  rcases narrowProtocols afi has transportTypes none with e | acc
  · simp [bind, Except.bind]
  · have hbind : ∀ k : Option (ComponentType × ProtocolSet) → Except String Unit,
        ((Except.ok acc : Except String _) >>= k) = k acc := fun k => rfl
    rw [hbind]
    simp only [seq_eq_ok, Except.ok.injEq, exists_eq_left']
    rcases acc with _ | ⟨first, required⟩
    · simp [pure, Except.pure]
    · simp

end

/-! ## From a packet to the check -/

section

variable {afi : Afi} {has : ComponentType → Bool} {lists : ComponentType → List FlowMatch}
  {p : Packet afi}

variable {t : ComponentType} {list : List FlowMatch}

lemma Packet.Reads.transport (ht : t ∈ transportTypes) (h : p.Reads t list) :
    p.fragment.carriesTransport ∧
      (transportProtocols t afi).getLsbD p.protocol.toNat := by
  have hlt : p.protocol.toNat < 256 := p.protocol.isLt
  simp only [transportTypes, mem_cons, not_mem_nil, or_false] at ht
  have hports : p.HasPorts → p.fragment.carriesTransport ∧ p.protocol.toNat ∈ [6, 17] := by
    rintro ⟨hc, hp | hp⟩ <;> exact ⟨hc, by rw [hp]; decide⟩
  have hicmp : p.HasIcmp → p.fragment.carriesTransport ∧
      p.protocol.toNat ∈ if afi = .ipv6 then [58] else [1] := by
    rintro ⟨hc, hp⟩
    refine ⟨hc, ?_⟩
    rw [hp]
    split_ifs <;> decide
  rw [getLsbD_transportProtocols]
  rcases ht with rfl | rfl | rfl | rfl | rfl | rfl
  · exact ⟨(hports h.1).1, hlt, (hports h.1).2⟩
  · exact ⟨(hports h.1).1, hlt, (hports h.1).2⟩
  · exact ⟨(hports h.1).1, hlt, (hports h.1).2⟩
  · exact ⟨(hicmp h.1).1, hlt, (hicmp h.1).2⟩
  · exact ⟨(hicmp h.1).1, hlt, (hicmp h.1).2⟩
  · refine ⟨h.1.1, hlt, ?_⟩
    rw [h.1.2]
    exact mem_singleton_self 6

lemma Packet.Reads.value (ht : t ∈ valueComponentTypes)
    (h : p.Reads t list) : ∃ x, x ≤ componentValueMax t afi ∧ Admits list x := by
  simp only [valueComponentTypes, mem_cons, not_mem_nil, or_false] at ht
  rcases ht with rfl | rfl | rfl | rfl | rfl | rfl | rfl | rfl
  · rcases h.2 with h | h
    · exact (exists_le_iff (w := 16) (by decide)).2 ⟨_, h⟩
    · exact (exists_le_iff (w := 16) (by decide)).2 ⟨_, h⟩
  · exact (exists_le_iff (w := 16) (by decide)).2 ⟨_, h.2⟩
  · exact (exists_le_iff (w := 16) (by decide)).2 ⟨_, h.2⟩
  · exact (exists_le_iff (w := 8) (by decide)).2 ⟨_, h.2⟩
  · exact (exists_le_iff (w := 8) (by decide)).2 ⟨_, h.2⟩
  · refine ⟨p.length, ?_, h⟩
    cases afi with
    | ipv4 => exact p.lengthFits rfl
    | ipv6 =>
      show p.length ≤ maxUint64
      have : maxUint64.toNat = 2 ^ 64 - 1 := rfl
      bv_omega
  · exact (exists_le_iff (w := 6) (by decide)).2 ⟨_, h⟩
  · exact (exists_le_iff (w := 20) (by decide)).2 ⟨_, h.2⟩

lemma FragmentState.bits_mem (f : FragmentState) :
    f.bits ∈ packetFragmentStates ∧
      (f.carriesTransport → f.bits ∈ transportFragmentStates) := by
  cases f <;> decide

lemma checkMatchable_of_packet
    (hp : ∀ t, t.isPrefix = false → has t → p.Reads t (lists t)) :
    checkMatchable afi has (some lists) = .ok () := by
  have hserves : Serves afi has transportTypes p.protocol.toNat := by
    intro t ht hhas
    refine (hp t ?_ hhas).transport ht |>.2
    revert ht
    cases t <;> decide
  have hproto : has .ipProtocol →
      (upperLayerProtocols afi (lists .ipProtocol)).getLsbD p.protocol.toNat := by
    intro hhas
    have hread := hp .ipProtocol rfl hhas
    have hsame : ofNat 64 p.protocol.toNat = p.protocol.setWidth 64 :=
      BitVec.ofNat_toNat ..
    exact getLsbD_upperLayerProtocols.2 ⟨p.protocol.isLt, hsame ▸ hread, p.upperLayer⟩
  have hfrag : ∀ states, p.fragment.bits ∈ states → has .fragment →
      fragmentAdmitted afi (lists .fragment) states := by
    intro states hin hhas
    exact fragmentAdmitted_iff.2 ⟨_, hin, p.dontFragment, hp .fragment rfl hhas⟩
  obtain ⟨herr, hok⟩ := narrowProtocols_transport afi has
  refine checkMatchable_eq_ok.2 ?_
  rcases hn : narrowProtocols afi has transportTypes none with e | acc
  · exact absurd hserves (herr e hn _)
  obtain ⟨-, hleft, hpresent⟩ := hok acc hn
  refine ⟨acc, rfl, checkComponentValues_eq_ok.2 ⟨?_, ?_, ?_, ?_⟩, checkPortValues_eq_ok.2 ?_, ?_⟩
  · exact fun hhas => ⟨_, hproto hhas⟩
  · intro t ht hhas
    refine (hp t ?_ hhas).value ht
    revert ht
    cases t <;> decide
  · exact fun hhas => ⟨_, (hp .tcpFlags rfl hhas).2⟩
  · exact hfrag _ p.fragment.bits_mem.1
  · intro h1 h2 h3
    have hdest := (hp .destPort rfl h2).2
    have hsource := (hp .sourcePort rfl h3).2
    refine (exists_le_iff (w := 16) (by decide)).2 ?_
    rcases (hp .port rfl h1).2 with h | h
    · exact ⟨p.destPort, h, .inl hdest⟩
    · exact ⟨p.sourcePort, h, .inr hsource⟩
  · rintro first required rfl
    have hreq : required.getLsbD p.protocol.toNat := (hleft _).2 hserves
    refine checkTransport_eq_ok.2 ⟨fun hhas => ⟨_, hreq, hproto hhas⟩, ?_⟩
    apply hfrag _ (p.fragment.bits_mem.2 ?_)
    -- some transport component is there, and it matches
    by_contra hc
    have hno : ∀ t ∈ transportTypes, has t = false := by
      intro t ht
      by_contra hhas
      rw [Bool.not_eq_false] at hhas
      refine hc ((hp t ?_ hhas).transport ht).1
      revert ht
      cases t <;> decide
    exact absurd (hpresent.2 hno) (by simp)

end

/-! ## From the check to a packet -/

section

variable {afi : Afi} {has : ComponentType → Bool} {lists : ComponentType → List FlowMatch}

lemma exists_of_imp {β : Type} [Inhabited β] {c : Prop} {q : β → Prop} (h : c → ∃ b, q b) :
    ∃ b, c → q b := by
  by_cases hc : c
  · obtain ⟨b, hb⟩ := h hc
    exact ⟨b, fun _ => hb⟩
  · exact ⟨default, fun hc' => absurd hc' hc⟩

lemma exists_ports
    (hvalues : ∀ t, has t → t ∈ [ComponentType.port, .destPort, .sourcePort] →
      ∃ b : BitVec 16, Admits (lists t) (b.setWidth 64))
    (hports : checkPortValues has lists = .ok ()) :
    ∃ d s : BitVec 16,
      (has .port → Admits (lists .port) (d.setWidth 64) ∨
        Admits (lists .port) (s.setWidth 64)) ∧
      (has .destPort → Admits (lists .destPort) (d.setWidth 64)) ∧
      (has .sourcePort → Admits (lists .sourcePort) (s.setWidth 64)) := by
  obtain ⟨port, hport⟩ := exists_of_imp fun h => hvalues .port h (by decide)
  obtain ⟨dest, hdest⟩ := exists_of_imp fun h => hvalues .destPort h (by decide)
  obtain ⟨source, hsource⟩ := exists_of_imp fun h => hvalues .sourcePort h (by decide)
  by_cases hd : has .destPort
  · by_cases hs : has .sourcePort
    · by_cases hp : has .port
      · -- all three: one port is common to the port list and another list
        have hx := checkPortValues_eq_ok.1 hports hp hd hs
        obtain ⟨b, h1, h2⟩ := (exists_le_iff (w := 16) (by decide)).1 hx
        rcases h2 with h2 | h2
        · exact ⟨b, source, fun _ => .inl h1, fun _ => h2, hsource⟩
        · exact ⟨dest, b, fun _ => .inr h1, hdest, fun _ => h2⟩
      · exact ⟨dest, source, fun h => absurd h hp, hdest, hsource⟩
    · exact ⟨dest, port, fun h => .inr (hport h), hdest, fun h => absurd h hs⟩
  · exact ⟨port, source, fun h => .inl (hport h), fun h => absurd h hd, hsource⟩

lemma exists_protocol {acc : Option (ComponentType × ProtocolSet)}
    (hn : narrowProtocols afi has transportTypes none = .ok acc) (hproto : has .ipProtocol →
      ∃ i, (upperLayerProtocols afi (lists .ipProtocol)).getLsbD i)
    (htrans : ∀ first required, acc = some (first, required) →
      checkTransport afi has lists first required = .ok ()) :
    ∃ i, i < 256 ∧ Serves afi has transportTypes i ∧
      (has .ipProtocol → Admits (lists .ipProtocol) (ofNat 64 i)) ∧
      (afi = .ipv6 → i ∉ [0, 43, 44, 50, 51, 60]) := by
  obtain ⟨hne, hleft, hpresent⟩ := (narrowProtocols_transport afi has).2 acc hn
  rcases acc with _ | ⟨first, required⟩
  · have hserves : ∀ i, Serves afi has transportTypes i := fun i => (hleft i).1 trivial
    by_cases hhas : has .ipProtocol
    · obtain ⟨i, hi⟩ := hproto hhas
      obtain ⟨h1, h2, h3⟩ := getLsbD_upperLayerProtocols.1 hi
      exact ⟨i, h1, hserves i, fun _ => h2, h3⟩
    · exact ⟨6, by decide, hserves 6, fun h => absurd h hhas, fun _ => by decide⟩
  · by_cases hhas : has .ipProtocol
    · obtain ⟨i, hreq, hi⟩ := (checkTransport_eq_ok.1 (htrans first required rfl)).1 hhas
      obtain ⟨h1, h2, h3⟩ := getLsbD_upperLayerProtocols.1 hi
      exact ⟨i, h1, (hleft i).1 hreq, fun _ => h2, h3⟩
    · obtain ⟨i, hi⟩ := ne_zero_iff_getLsbD.1 (hne first required rfl)
      have hserves := (hleft i).1 hi
      -- a transport component is there, so the protocol is one of four
      have hsome : ∃ t ∈ transportTypes, has t := by
        by_contra hno
        push Not at hno
        have : ∀ t ∈ transportTypes, has t = false := fun t ht => by
          simpa using hno t ht
        exact absurd (hpresent.2 this) (by simp)
      obtain ⟨t, ht, hhas'⟩ := hsome
      obtain ⟨hlt, hmem⟩ := getLsbD_transportProtocols.1 (hserves t ht hhas')
      exact ⟨i, hlt, hserves, fun h => absurd h hhas, fun _ =>
        not_extension_of_transport (needs_subset t afi i hmem)⟩

lemma exists_fragment {transport : Prop} [Decidable transport] (hfrag : has .fragment →
      fragmentAdmitted afi (lists .fragment) packetFragmentStates)
    (htrans : transport → has .fragment →
      fragmentAdmitted afi (lists .fragment) transportFragmentStates) :
    ∃ (f : FragmentState) (df : Bool), (transport → f.carriesTransport) ∧
      (has .fragment → AdmitsBits (fragmentMask afi) (lists .fragment)
        (f.bits ||| if afi = .ipv4 ∧ df = true then flowFragDontFragment else 0#64)) := by
  by_cases hhas : has .fragment
  · by_cases ht : transport
    · obtain ⟨state, hstate, df, hadm⟩ := fragmentAdmitted_iff.1 (htrans ht hhas)
      simp only [transportFragmentStates, mem_cons, not_mem_nil, or_false] at hstate
      rcases hstate with rfl | rfl
      · exact ⟨.unfragmented, df, fun _ => rfl, fun _ => hadm⟩
      · exact ⟨.first, df, fun _ => rfl, fun _ => hadm⟩
    · obtain ⟨state, hstate, df, hadm⟩ := fragmentAdmitted_iff.1 (hfrag hhas)
      simp only [packetFragmentStates, mem_cons, not_mem_nil, or_false] at hstate
      rcases hstate with rfl | rfl | rfl | rfl
      · exact ⟨.unfragmented, df, fun h => absurd h ht, fun _ => hadm⟩
      · exact ⟨.first, df, fun h => absurd h ht, fun _ => hadm⟩
      · exact ⟨.middle, df, fun h => absurd h ht, fun _ => hadm⟩
      · exact ⟨.last, df, fun h => absurd h ht, fun _ => hadm⟩
  · exact ⟨.unfragmented, false, fun _ => rfl, fun h => absurd h hhas⟩

lemma packet_of_checkMatchable (hok : checkMatchable afi has (some lists) = .ok ())
    (hlabel : has .flowLabel → afi = .ipv6) {dst src : Addr} (hdst : dst.bitLen = afi.bitLen)
    (hsrc : src.bitLen = afi.bitLen) :
    ∃ p : Packet afi, p.destination = dst ∧ p.source = src ∧
      ∀ t, t.isPrefix = false → has t → p.Reads t (lists t) := by
  obtain ⟨acc, hn, hcomp, hports, htrans⟩ := checkMatchable_eq_ok.1 hok
  obtain ⟨hproto, hvalues, htcp, hfrag⟩ := checkComponentValues_eq_ok.1 hcomp
  obtain ⟨-, -, hpresent⟩ := (narrowProtocols_transport afi has).2 acc hn
  have hfield : ∀ {w : ℕ} (t : ComponentType), w ≤ 64 → t ∈ valueComponentTypes →
      componentValueMax t afi = ofNat 64 (2 ^ w - 1) → has t →
        ∃ b : BitVec w, Admits (lists t) (b.setWidth 64) := by
    intro w t hw ht hmax hhas
    have := hvalues t ht hhas
    rw [hmax] at this
    exact (exists_le_iff hw).1 this
  obtain ⟨i, hi, hserves, hadmits, hupper⟩ := exists_protocol hn hproto htrans
  have htransfrag : acc ≠ none → has .fragment →
      fragmentAdmitted afi (lists .fragment) transportFragmentStates := by
    intro hacc hhas
    obtain ⟨⟨first, required⟩, rfl⟩ := Option.ne_none_iff_exists'.1 hacc
    exact (checkTransport_eq_ok.1 (htrans first required rfl)).2 hhas
  obtain ⟨f, df, hcarries, hbits⟩ := exists_fragment hfrag htransfrag
  obtain ⟨d, s, hport, hdest, hsource⟩ := exists_ports (fun t hhas ht => by
    simp only [mem_cons, not_mem_nil, or_false] at ht
    rcases ht with rfl | rfl | rfl <;> exact hfield _ (by decide) (by decide) rfl hhas) hports
  obtain ⟨itype, htype⟩ := exists_of_imp (hfield (w := 8) .icmpType (by decide) (by decide) rfl)
  obtain ⟨icode, hcode⟩ := exists_of_imp (hfield (w := 8) .icmpCode (by decide) (by decide) rfl)
  obtain ⟨bits, htcp⟩ := exists_of_imp htcp
  obtain ⟨dscp, hdscp⟩ := exists_of_imp (hfield (w := 6) .dscp (by decide) (by decide) rfl)
  obtain ⟨label, hflow⟩ := exists_of_imp (hfield (w := 20) .flowLabel (by decide) (by decide) rfl)
  have hlen : ∃ len, len ≤ componentValueMax .packetLength afi ∧
      (has .packetLength → Admits (lists .packetLength) len) := by
    by_cases hhas : has .packetLength
    · obtain ⟨len, h1, h2⟩ := hvalues .packetLength (by decide) hhas
      exact ⟨len, h1, fun _ => h2⟩
    · exact ⟨0#64, by bv_omega, fun h => absurd h hhas⟩
  obtain ⟨len, hlen, hlength⟩ := hlen
  have hprot : (ofNat 8 i).toNat = i := by
    rw [toNat_ofNat, Nat.mod_eq_of_lt hi]
  have hwide : (ofNat 8 i).setWidth 64 = ofNat 64 i := by
    apply BitVec.eq_of_toNat_eq
    rw [toNat_setWidth, hprot, toNat_ofNat]
  refine ⟨{ destination := dst, source := src, destinationLen := hdst, sourceLen := hsrc
            protocol := ofNat 8 i, upperLayer := by rw [hprot]; exact hupper
            fragment := f, dontFragment := df, destPort := d, sourcePort := s
            icmpType := itype, icmpCode := icode, tcpBits := bits, length := len
            lengthFits := fun h => by rw [h] at hlen; exact hlen
            dscp := dscp, flowLabel := label }, rfl, rfl, ?_⟩
  have htransport : ∀ t ∈ transportTypes, has t → f.carriesTransport ∧ i ∈ needs t afi := by
    intro t ht hhas
    refine ⟨hcarries fun hacc => ?_, (getLsbD_transportProtocols.1 (hserves t ht hhas)).2⟩
    rw [hpresent.1 hacc t ht] at hhas
    cases hhas
  have hports' : ∀ t ∈ transportTypes, has t → needs t afi = [6, 17] →
      f.carriesTransport ∧ (ofNat 8 i = 6#8 ∨ ofNat 8 i = 17#8) := by
    intro t ht hhas hneeds
    obtain ⟨h1, h2⟩ := htransport t ht hhas
    rw [hneeds] at h2
    simp only [mem_cons, not_mem_nil, or_false] at h2
    rcases h2 with rfl | rfl
    · exact ⟨h1, .inl rfl⟩
    · exact ⟨h1, .inr rfl⟩
  have hicmp : ∀ t ∈ transportTypes, has t →
      (needs t afi = if afi = .ipv6 then [58] else [1]) →
        f.carriesTransport ∧ ofNat 8 i = if afi = .ipv6 then 58#8 else 1#8 := by
    intro t ht hhas hneeds
    obtain ⟨h1, h2⟩ := htransport t ht hhas
    rw [hneeds] at h2
    refine ⟨h1, ?_⟩
    split_ifs at h2 ⊢ <;> rw [mem_singleton.1 h2]
  intro t ht hhas
  cases t with
  | destPrefix | sourcePrefix => cases ht
  | ipProtocol =>
    show Admits _ _
    rw [hwide]
    exact hadmits hhas
  | port => exact ⟨hports' .port (by decide) hhas rfl, hport hhas⟩
  | destPort => exact ⟨hports' .destPort (by decide) hhas rfl, hdest hhas⟩
  | sourcePort => exact ⟨hports' .sourcePort (by decide) hhas rfl, hsource hhas⟩
  | icmpType => exact ⟨hicmp .icmpType (by decide) hhas rfl, htype hhas⟩
  | icmpCode => exact ⟨hicmp .icmpCode (by decide) hhas rfl, hcode hhas⟩
  | tcpFlags =>
    obtain ⟨h1, h2⟩ := htransport .tcpFlags (by decide) hhas
    have h6 : ofNat 8 i = 6#8 := by rw [mem_singleton.1 h2]
    exact ⟨⟨h1, h6⟩, htcp hhas⟩
  | packetLength => exact hlength hhas
  | dscp => exact hdscp hhas
  | fragment => exact hbits hhas
  | flowLabel => exact ⟨hlabel hhas, hflow hhas⟩

end

lemma FlowSpec.exists_address (f : FlowSpec) (t : ComponentType) :
    ∃ a : Addr, a.bitLen = f.afi.bitLen ∧
      ∀ c, FlowComponent.pfx c ∈ f.components → c.compType = t → c.Covers a := by
  by_cases h : ∃ c, FlowComponent.pfx c ∈ f.components ∧ c.compType = t
  · obtain ⟨c, hc, ht⟩ := h
    refine ⟨c.pfx.addr, (PrefixComponent.validate_eq_ok.1 (f.prefixes c hc)).2.1, ?_⟩
    intro c' hc' ht'
    have hsame : FlowComponent.pfx c' = FlowComponent.pfx c := by
      have h1 := FlowSpec.componentOfType_eq_some.2 ⟨hc, ht⟩
      have h2 := FlowSpec.componentOfType_eq_some.2 ⟨hc', ht'⟩
      rw [h1] at h2
      exact (Option.some.inj h2).symm
    obtain rfl := FlowComponent.pfx.inj hsame
    exact fun i _ _ => rfl
  · push Not at h
    cases hafi : f.afi with
    | ipv4 => exact ⟨.v4 0, rfl, fun c hc ht => absurd ht (h c hc)⟩
    | ipv6 => exact ⟨.v6 0 [], rfl, fun c hc ht => absurd ht (h c hc)⟩

/-- The check accepts a rule exactly where some packet matches every component of it. -/
theorem checkMatchable_iff (f : FlowSpec) :
    f.checkMatchable = .ok () ↔ ∃ p : Packet f.afi, ∀ c ∈ f.components, p.Matches c := by
  unfold FlowSpec.checkMatchable
  constructor
  · intro hok
    have hlabel : f.hasComponent .flowLabel → f.afi = .ipv6 := by
      intro h
      obtain ⟨c, hc, ht⟩ := FlowSpec.hasComponent_iff.1 h
      exact f.label c hc ht
    obtain ⟨dst, hdst, hdc⟩ := f.exists_address .destPrefix
    obtain ⟨src, hsrc, hsc⟩ := f.exists_address .sourcePrefix
    obtain ⟨p, rfl, rfl, hp⟩ := packet_of_checkMatchable hok hlabel hdst hsrc
    refine ⟨p, fun c hc => ?_⟩
    cases c with
    | pfx c =>
      show c.Covers (if c.compType = .destPrefix then p.destination else p.source)
      split_ifs with h
      · exact hdc c hc h
      · refine hsc c hc ?_
        have := c.isPrefix
        revert h this
        cases c.compType <;> decide
    | numeric c =>
      have hlist : f.componentMatches c.compType = c.list := by
        have hof : f.componentOfType c.compType = some (.numeric c) :=
          FlowSpec.componentOfType_eq_some.2 ⟨hc, rfl⟩
        unfold FlowSpec.componentMatches
        rw [hof]
      show p.Reads c.compType c.list
      rw [← hlist]
      exact hp _ c.isNumeric (FlowSpec.hasComponent_iff.2 ⟨_, hc, rfl⟩)
  · rintro ⟨p, hp⟩
    refine checkMatchable_of_packet (p := p) fun t ht hhas => ?_
    obtain ⟨c, hc, rfl⟩ := FlowSpec.hasComponent_iff.1 hhas
    unfold FlowSpec.componentMatches
    rw [FlowSpec.componentOfType_eq_some.2 ⟨hc, rfl⟩]
    cases c with
    | pfx c =>
      have := c.isPrefix
      rw [FlowComponent.type] at ht
      rw [ht] at this
      cases this
    | numeric c => exact hp _ hc

end Ze.Flow
