/-
The client's address behind proxies (`crates/ratelimit/src/ip.rs`). Each
trusted proxy appends one entry to `X-Forwarded-For`, so the client is that
many entries from the right. `client_ip` counts after it has dropped the
entries that are no addresses. Where a proxy appends an address, the count
ends at its entry. Where one appends anything else (`unknown`, an address
with a port), the count goes on into what the client has sent, and the
client chooses the address it is limited under.

`str::parse::<IpAddr>` is a parameter.
-/
import FerrKit.Lib.Net
import FerrKit.Lib.Text

namespace FerrKit.RateLimit

open Net

structure TrustedProxies where
  hops : Nat

def TrustedProxies.none : TrustedProxies := ⟨0⟩

def TrustedProxies.count (count : Nat) : TrustedProxies := ⟨count⟩

variable (parse : String → Option IpAddr)

/-- `part.trim().parse::<IpAddr>().ok()`. -/
def addressOf (part : List Char) : Option IpAddr := parse (Text.trimWhitespace (String.ofList part))

/-- The addresses of a header, those that are none left out. -/
def chainOf (raw : List Char) : List IpAddr := (raw.splitOn ',').filterMap (addressOf parse)

def clientIp (peer : IpAddr) (xff : Option (List Char)) (trusted : TrustedProxies) : IpAddr :=
  if trusted.hops = 0 then peer
  else
    match xff with
    | .none => peer
    | .some raw =>
      match chainOf parse raw with
      | [] => peer
      | first :: rest =>
        let chain := first :: rest
        if trusted.hops ≥ chain.length then first else (chain[chain.length - trusted.hops]?).getD first

/-! ## What the client can choose -/

/-- What the client has sent, and behind it an entry from each proxy. -/
def forwarded (sent : List Char) (entries : List (List Char)) : List Char := [','].intercalate (sent :: entries)

variable {parse} {entries : List (List Char)} {peer : IpAddr}

theorem chainOf_forwarded (hne : entries ≠ []) (hcomma : ∀ e ∈ entries, ',' ∉ e) (sent : List Char) :
    chainOf parse (forwarded sent entries) = chainOf parse sent ++ entries.filterMap (addressOf parse) := by
  have hheader : forwarded sent entries = sent ++ ',' :: [','].intercalate entries := by
    cases entries with
    | nil => exact absurd rfl hne
    | cons e es => simp [forwarded, List.intercalate]
  rw [chainOf, hheader, List.splitOn_append_cons_self, List.splitOn_intercalate ',' hcomma hne, List.filterMap_append]
  rfl

/-- With `hops` addresses behind it, what comes first does not count. -/
theorem clientIp_of_chain {sent : List IpAddr} {raw : List Char} {hops : Nat} {first : IpAddr} {rest : List IpAddr}
    (hchain : chainOf parse raw = sent ++ first :: rest) (hlen : hops = (first :: rest).length) :
    clientIp parse peer (.some raw) ⟨hops⟩ = first := by
  have hhops : hops ≠ 0 := by simp [hlen]
  unfold clientIp
  rw [if_neg hhops]
  simp only [hchain]
  cases sent with
  | nil => simp [hlen]
  | cons a sent =>
    have hlt : ¬ hops ≥ (a :: (sent ++ first :: rest)).length := by
      simp [hlen]
      omega
    have hpos : (a :: (sent ++ first :: rest)).length - hops = (a :: sent).length := by
      simp [hlen]
      omega
    simp only [List.cons_append, if_neg hlt, hpos]
    rw [← List.cons_append, List.getElem?_append_right (Nat.le_refl _)]
    simp

/-- An address that is sent so often. -/
theorem chainOf_repeated {text : List Char} {ip : IpAddr} (hcomma : ',' ∉ text) (hip : addressOf parse text = .some ip)
    (m : Nat) : chainOf parse ([','].intercalate (List.replicate (m + 1) text)) = List.replicate (m + 1) ip := by
  have hsplit : ([','].intercalate (List.replicate (m + 1) text)).splitOn ',' = List.replicate (m + 1) text :=
    List.splitOn_intercalate ',' (fun e he => by rw [List.eq_of_mem_replicate he]; exact hcomma) (by simp)
  rw [chainOf, hsplit, List.filterMap_replicate_of_some hip]

/-- With fewer addresses behind it than hops, the client can fill the gap. -/
theorem clientIp_of_gap (hne : entries ≠ []) (hcomma : ∀ e ∈ entries, ',' ∉ e)
    (hgap : (entries.filterMap (addressOf parse)).length < entries.length) {text : List Char} {ip : IpAddr}
    (htext : ',' ∉ text) (hip : addressOf parse text = .some ip) :
    ∃ sent, clientIp parse peer (.some (forwarded sent entries)) (.count entries.length) = ip := by
  obtain ⟨m, hm⟩ := Nat.exists_eq_add_of_lt hgap
  refine ⟨[','].intercalate (List.replicate (m + 1) text), ?_⟩
  have hchain : chainOf parse (forwarded ([','].intercalate (List.replicate (m + 1) text)) entries) =
      [] ++ ip :: (List.replicate m ip ++ entries.filterMap (addressOf parse)) := by
    rw [chainOf_forwarded hne hcomma, chainOf_repeated htext hip]
    rfl
  refine clientIp_of_chain hchain ?_
  simp only [List.length_cons, List.length_append, List.length_replicate]
  omega

/-- Two addresses as `FromStr` reads them. -/
structure ReadsDotted (parse : String → Option IpAddr) : Prop where
  ones : parse "1.1.1.1" = .some (.v4 ⟨1, 1, 1, 1⟩)
  twos : parse "2.2.2.2" = .some (.v4 ⟨2, 2, 2, 2⟩)

/-- **The client has no say exactly when every proxy appends an address.** For
any number of trusted hops and any entries they append, with commas between:
the answer is the same whatever the client has sent, if and only if each of
the entries is an address. -/
theorem clientIp_independent_iff (hparse : ReadsDotted parse) (peer : IpAddr) (hn : 1 ≤ entries.length)
    (hcomma : ∀ e ∈ entries, ',' ∉ e) :
    (∀ sent sent', clientIp parse peer (.some (forwarded sent entries)) (.count entries.length) =
        clientIp parse peer (.some (forwarded sent' entries)) (.count entries.length)) ↔
      ∀ e ∈ entries, (addressOf parse e).isSome := by
  have hne : entries ≠ [] := List.ne_nil_of_length_pos hn
  constructor
  · intro hsame
    by_contra hsome
    have hgap : (entries.filterMap (addressOf parse)).length < entries.length := by
      refine lt_of_le_of_ne (List.length_filterMap_le ..) fun heq => hsome ?_
      exact List.filterMap_length_eq_length.1 heq
    have hones : addressOf parse "1.1.1.1".toList = .some (.v4 ⟨1, 1, 1, 1⟩) := hparse.ones
    have htwos : addressOf parse "2.2.2.2".toList = .some (.v4 ⟨2, 2, 2, 2⟩) := hparse.twos
    obtain ⟨sent, hsent⟩ := clientIp_of_gap hne hcomma hgap (by decide) hones
    obtain ⟨sent', hsent'⟩ := clientIp_of_gap hne hcomma hgap (by decide) htwos
    have hclash := (hsent.symm.trans (hsame sent sent')).trans hsent'
    exact absurd hclash (by decide)
  · intro hall
    have hlen : (entries.filterMap (addressOf parse)).length = entries.length :=
      List.filterMap_length_eq_length.2 hall
    obtain ⟨first, rest, hfirst⟩ := List.exists_cons_of_length_pos (hlen ▸ hn)
    have hanswer : ∀ sent, clientIp parse peer (.some (forwarded sent entries)) (.count entries.length) = first := by
      intro sent
      have hchain : chainOf parse (forwarded sent entries) = chainOf parse sent ++ first :: rest := by
        rw [chainOf_forwarded hne hcomma, hfirst]
      exact clientIp_of_chain hchain (by rw [← hfirst, hlen])
    intro sent sent'
    rw [hanswer, hanswer]

/-- A parser for three addresses. -/
def threeAddresses : String → Option IpAddr
  | "1.1.1.1" => .some (.v4 ⟨1, 1, 1, 1⟩)
  | "2.2.2.2" => .some (.v4 ⟨2, 2, 2, 2⟩)
  | "203.0.113.7" => .some (.v4 ⟨203, 0, 113, 7⟩)
  | _ => .none

theorem threeAddresses_reads : ReadsDotted threeAddresses := ⟨by decide, by decide⟩

theorem clientIp_independent_iff_oneHop :
    clientIp threeAddresses (.v4 ⟨10, 0, 0, 1⟩) (.some (forwarded "1.1.1.1".toList [" 203.0.113.7".toList])) (.count 1) =
      clientIp threeAddresses (.v4 ⟨10, 0, 0, 1⟩) (.some (forwarded [] [" 203.0.113.7".toList])) (.count 1) := by
  have hcomma : ∀ e ∈ [" 203.0.113.7".toList], ',' ∉ e := by simp
  have haddress : ∀ e ∈ [" 203.0.113.7".toList], (addressOf threeAddresses e).isSome := by
    intro e he
    rw [List.mem_singleton.1 he]
    decide
  exact (clientIp_independent_iff threeAddresses_reads _ (by simp) hcomma).2 haddress _ _

/-- A proxy that appends the port as well: the client is whoever it says. -/
theorem portEntry_lets_client_choose :
    ∃ (peer : IpAddr) (entry : List Char), ',' ∉ entry ∧ entry = "203.0.113.7:51234".toList ∧
      clientIp threeAddresses peer (.some (forwarded "1.1.1.1".toList [entry])) (.count 1) = .v4 ⟨1, 1, 1, 1⟩ ∧
      clientIp threeAddresses peer (.some (forwarded "2.2.2.2".toList [entry])) (.count 1) = .v4 ⟨2, 2, 2, 2⟩ :=
  ⟨.v4 ⟨10, 0, 0, 1⟩, _, by decide, rfl, by decide +kernel, by decide +kernel⟩

end FerrKit.RateLimit
