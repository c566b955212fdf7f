import Lok.Basic
import Lok.Text
import Lok.Windows

/-!
# Throttles

The anonymous endpoints count requests by the address they come from, one counter for each bucket. The
address is read off a header that whoever sends the request may begin as they like; each proxy appends what
it saw.
-/

namespace Lok

namespace Throttles

open Text Windows

/-- What is read of a request: who lok is connected to, and the header. -/
structure RequestMeta where
  remoteAddr : Option (List Char)
  forwardedFor : Option (List Char)
  deriving DecidableEq, Repr

inductive Bucket
  | token
  | authorization
  | claim
  deriving DecidableEq, Repr

def Bucket.name : Bucket → List Char
  | .token => ['t', 'o', 'k', 'e', 'n']
  | .authorization => ['a', 'u', 't', 'h', 'o', 'r', 'i', 'z', 'a', 't', 'i', 'o', 'n']
  | .claim => ['c', 'l', 'a', 'i', 'm']

structure Settings where
  trustedProxyDepth : Nat := 0
  authorizationLimitPerMinute : Nat := 30
  tokenLimitPerMinute : Nat := 240
  deriving DecidableEq, Repr

/-- The limit that the endpoints of a bucket give. -/
def Bucket.limit (s : Settings) : Bucket → Nat
  | .token => s.tokenLimitPerMinute
  | .authorization | .claim => s.authorizationLimitPerMinute

def windowSeconds : Time := 60

/-- `[p.strip() for p in forwarded.split(",") if p.strip()]`. -/
def parts (forwarded : List Char) : List (List Char) := ((forwarded.splitOn ',').map strip).filter (· ≠ [])

def clientIp (depth : Nat) (r : RequestMeta) : List Char :=
  let remoteAddr := r.remoteAddr.getD "unknown".toList
  if depth = 0 then remoteAddr
  else
    let parts := parts (r.forwardedFor.getD [])
    if parts.length < depth then remoteAddr
    else parts.getD (parts.length - depth) remoteAddr

/-- `"oauth-throttle:"`. -/
def keyStart : List Char := ['o', 'a', 'u', 't', 'h', '-', 't', 'h', 'r', 'o', 't', 't', 'l', 'e', ':']

def key (b : Bucket) (ip : List Char) : List Char := keyStart ++ b.name ++ ':' :: ip

/-- `is_throttled`; a cache that is down throttles nobody. -/
def isThrottled (s : Settings) (c : Cache (List Char)) (up : Bool) (r : RequestMeta) (b : Bucket) (now : Time) :
    Cache (List Char) × Bool :=
  let k := key b (clientIp s.trustedProxyDepth r)
  if !up then (c, false)
  else
    match c.add k now windowSeconds with
    | some c' => (c', false)
    | none =>
      match c.incr k now with
      | some (n, c') => (c', decide (b.limit s < n))
      | none => (c, false)

/-! ## Requests one after the other -/

inductive Happening
  | request (r : RequestMeta) (b : Bucket) (up : Bool)
  -- the cache makes room
  | culled (keys : List (List Char))
  deriving DecidableEq, Repr

structure Occurrence where
  time : Time
  happening : Happening
  deriving DecidableEq, Repr

variable (s : Settings)

def Occurrence.after (c : Cache (List Char)) (o : Occurrence) : Cache (List Char) :=
  match o.happening with
  | .request r b up => (isThrottled s c up r b o.time).1
  | .culled keys => c.drop fun k => keys.contains k

def Occurrence.admitted (c : Cache (List Char)) (o : Occurrence) : Bool :=
  match o.happening with
  | .request r b up => !(isThrottled s c up r b o.time).2
  | .culled _ => false

/-- What is let through of some requests. -/
def admitted (c : Cache (List Char)) : List Occurrence → List Occurrence
  | [] => []
  | o :: os => (if o.admitted s c then [o] else []) ++ admitted (o.after s c) os

def after (c : Cache (List Char)) (os : List Occurrence) : Cache (List Char) := os.foldl (Occurrence.after s) c

/-- The request is counted, in a bucket and under an address. -/
def Occurrence.counts (b : Bucket) (ip : List Char) (o : Occurrence) : Bool :=
  match o.happening with
  | .request r b' up => up && decide (b' = b) && decide (clientIp s.trustedProxyDepth r = ip)
  | .culled _ => false

/-- The counter of an address is dropped. -/
def Occurrence.culls (b : Bucket) (ip : List Char) (o : Occurrence) : Bool :=
  match o.happening with
  | .request .. => false
  | .culled keys => keys.contains (key b ip)

/-- What an occurrence is to the counters. -/
def Occurrence.event (o : Occurrence) : Windows.Event (List Char) :=
  match o.happening with
  | .request r b up => ⟨o.time, if up then .hit (key b (clientIp s.trustedProxyDepth r)) else .drop fun _ => false⟩
  | .culled keys => ⟨o.time, .drop fun k => keys.contains k⟩

/-- The limit of the bucket a key is for. -/
def limitOf (k : List Char) : Nat :=
  if (keyStart ++ Bucket.name .token ++ [':']).isPrefixOf k then Bucket.limit s .token else Bucket.limit s
    .authorization

/-! ## Addresses -/

def IsAddress (a : List Char) : Prop := a ≠ [] ∧ ∀ c ∈ a, c ≠ ',' ∧ isSpace c = false

/-- The header after it has passed proxies that saw these addresses. -/
def forwarded (sent : Option (List Char)) (seen : List (List Char)) : Option (List Char) :=
  seen.foldl (fun header a => some (match header with | none => a | some h => h ++ ',' :: ' ' :: a)) sent

/-- A request comes from an address through the trusted proxies, whatever it was sent with. -/
inductive From (depth : Nat) (ip : List Char) : RequestMeta → Prop
  | direct (sent : Option (List Char)) (h : depth = 0) : From depth ip ⟨some ip, sent⟩
  | proxied (remoteAddr sent : Option (List Char)) (proxies : List (List Char)) (h : depth = proxies.length + 1)
      (haddress : ∀ a ∈ ip :: proxies, IsAddress a) : From depth ip ⟨remoteAddr, forwarded sent (ip :: proxies)⟩

variable {s : Settings} {depth : Nat} {ip : List Char} {r : RequestMeta}

theorem parts_address {a : List Char} (h : IsAddress a) : parts a = [a] := by
  have hcomma : ',' ∉ a := fun hin => (h.2 ',' hin).1 rfl
  have hstrip : strip a = a := strip_of_clean fun c hc => (h.2 c hc).2
  simp [parts, List.splitOn_eq_singleton hcomma, hstrip, h.1]

theorem parts_appended {a : List Char} (header : List Char) (h : IsAddress a) :
    parts (header ++ ',' :: ' ' :: a) = parts header ++ [a] := by
  have hspace : parts (' ' :: a) = [a] := by
    have hcomma : ',' ∉ ' ' :: a := by
      intro hin
      rcases List.mem_cons.mp hin with heq | hin
      · exact absurd heq (by decide)
      · exact (h.2 ',' hin).1 rfl
    have hstrip : strip (' ' :: a) = a := by
      have hleft : strip (' ' :: a) = strip a := by
        have hisSpace : isSpace ' ' = true := by decide
        simp [strip, hisSpace]
      rw [hleft, strip_of_clean fun c hc => (h.2 c hc).2]
    simp [parts, List.splitOn_eq_singleton hcomma, hstrip, h.1]
  unfold parts at hspace ⊢
  rw [List.splitOn_append_cons_self, List.map_append, List.filter_append, hspace]

theorem parts_forwarded {seen : List (List Char)} (sent : Option (List Char)) (h : ∀ a ∈ seen, IsAddress a) :
    parts ((forwarded sent seen).getD []) = parts (sent.getD []) ++ seen := by
  induction seen generalizing sent with
  | nil => simp [forwarded]
  | cons a seen ih =>
    have ha : IsAddress a := h a (by simp)
    have hrest := ih (some (match sent with | none => a | some h => h ++ ',' :: ' ' :: a))
      fun b hb => h b (List.mem_cons_of_mem a hb)
    rw [forwarded, List.foldl_cons]
    refine hrest.trans ?_
    cases sent with
    | none =>
      have hnil : parts [] = [] := by decide
      simp [hnil, parts_address ha]
    | some header => simp [parts_appended header ha]

theorem From.clientIp (h : From depth ip r) : clientIp depth r = ip := by
  cases h with
  | direct sent h => simp [Throttles.clientIp, h]
  | proxied remoteAddr sent proxies h haddress =>
    have hne : depth ≠ 0 := by omega
    simp only [Throttles.clientIp, hne, if_false, parts_forwarded sent haddress, List.length_append,
      List.length_cons]
    have hlong : ¬ (parts (sent.getD [])).length + (proxies.length + 1) < depth := by omega
    have hindex : (parts (sent.getD [])).length + (proxies.length + 1)
      - depth = (parts (sent.getD [])).length := by omega
    rw [if_neg hlong, hindex]
    simp

/-! ## Keys -/

theorem key_inj {b b' : Bucket} {ip ip' : List Char} (h : key b ip = key b' ip') : b = b' ∧ ip = ip' := by
  simp only [key, List.append_assoc] at h
  have hname := List.append_cancel_left h
  cases b <;> cases b' <;> simp [Bucket.name] at hname <;> exact ⟨rfl, hname⟩

theorem limitOf_key (b : Bucket) (ip : List Char) : limitOf s (key b ip) = b.limit s := by
  have hsplit : key b ip = keyStart ++ (b.name ++ ':' :: ip) := by simp [key]
  rw [limitOf, hsplit, List.append_assoc]
  have hstarts : (keyStart ++ (Bucket.name .token ++ [':'])).isPrefixOf (keyStart ++ (b.name ++ ':' :: ip))
      = (Bucket.name .token ++ [':']).isPrefixOf (b.name ++ ':' :: ip) := by
    rw [Bool.eq_iff_iff, List.isPrefixOf_iff_prefix, List.isPrefixOf_iff_prefix, List.prefix_append_right_inj]
  rw [hstarts]
  cases b <;> simp [Bucket.name, Bucket.limit]

/-! ## Counting -/

variable {c : Cache (List Char)} {b : Bucket} {o : Occurrence} {os : List Occurrence} {start : Time}

theorem isThrottled_up {now : Time} : isThrottled s c true r b now =
    ((c.hit windowSeconds (b.limit s) (key b (Throttles.clientIp s.trustedProxyDepth r)) now).1,
      !(c.hit windowSeconds (b.limit s) (key b (Throttles.clientIp s.trustedProxyDepth r)) now).2) := by
  simp only [isThrottled, Cache.hit, Bool.not_true, Bool.false_eq_true, if_false]
  cases hadd : c.add (key b (Throttles.clientIp s.trustedProxyDepth r)) now windowSeconds with
  | some c' => rfl
  | none =>
    cases hincr : c.incr (key b (Throttles.clientIp s.trustedProxyDepth r)) now with
    | none => rfl
    | some x =>
      have hover : decide (b.limit s < x.1) = !decide (x.1 ≤ b.limit s) := by
        rw [Bool.eq_iff_iff]
        simp
      exact congrArg (x.2, ·) hover

theorem Occurrence.event_after : (o.event s).after windowSeconds (limitOf s) c = o.after s c := by
  obtain ⟨time, happening⟩ := o
  cases happening with
  | culled keys => rfl
  | request r b up =>
    cases up with
    | false =>
      have hnothing : c.drop (fun _ => false) = c := rfl
      simp [event, Windows.Event.after, after, isThrottled, hnothing]
    | true => simp [event, Windows.Event.after, after, isThrottled_up, limitOf_key]

theorem Occurrence.event_hits : (o.event s).hits (key b ip) = o.counts s b ip := by
  obtain ⟨time, happening⟩ := o
  cases happening with
  | culled keys => rfl
  | request r b' up =>
    cases up with
    | false => rfl
    | true =>
      have hiff : key b' (Throttles.clientIp s.trustedProxyDepth r) = key b ip
          ↔ b' = b ∧ Throttles.clientIp s.trustedProxyDepth r = ip :=
        ⟨key_inj, fun h => by rw [h.1, h.2]⟩
      simp [event, Windows.Event.hits, counts, hiff, Bool.decide_and]

theorem Occurrence.event_drops : (o.event s).drops (key b ip) = o.culls b ip := by
  obtain ⟨time, happening⟩ := o
  cases happening with
  | culled keys => rfl
  | request r b' up => cases up <;> rfl

theorem Occurrence.event_time : (o.event s).time = o.time := by
  obtain ⟨time, happening⟩ := o
  cases happening <;> rfl

theorem Occurrence.event_passes (h : o.counts s b ip = true) :
    (o.event s).passes windowSeconds (limitOf s) c = o.admitted s c := by
  obtain ⟨time, happening⟩ := o
  cases happening with
  | culled keys => simp [counts] at h
  | request r b' up =>
    cases up with
    | false => simp [counts] at h
    | true => simp [event, Windows.Event.passes, admitted, isThrottled_up, limitOf_key]

theorem events_after : state windowSeconds (limitOf s) c (os.map (·.event s)) = after s c os := by
  simp only [state, after, List.foldl_map, Occurrence.event_after]

theorem inOrder_events (h : os.Pairwise fun o p => o.time ≤ p.time) : InOrder (os.map (·.event s)) := by
  simpa [InOrder, List.pairwise_map, Occurrence.event_time] using h

def Occurrence.within (start : Time) (o : Occurrence) : Bool :=
  decide (start ≤ o.time ∧ o.time < start + windowSeconds)

theorem admitted_counted : (admitted s c os).countP (fun o => o.counts s b ip && o.within start)
    = passedWithin windowSeconds (limitOf s) c (key b ip) start (os.map (·.event s)) := by
  induction os generalizing c with
  | nil => rfl
  | cons o os ih =>
    rw [List.map_cons, passedWithin_cons, Occurrence.event_after, ← ih, admitted, List.countP_append,
      Occurrence.event_hits]
    have hwithin : (o.event s).within windowSeconds start = o.within start := by
      simp [Windows.Event.within, Occurrence.within, Occurrence.event_time]
    rw [hwithin]
    congr 1
    cases hcounts : o.counts s b ip with
    | false => split <;> simp [hcounts]
    | true =>
      rw [Occurrence.event_passes hcounts]
      cases ha : o.admitted s c <;> cases hw : o.within start <;> simp [hcounts, hw]

theorem culls_counted : dropsWithin windowSeconds (key b ip) start (os.map (·.event s))
    = os.countP fun o => o.culls b ip && o.within start := by
  rw [dropsWithin, List.countP_map]
  refine List.countP_congr fun o _ => ?_
  simp [Occurrence.event_drops, Windows.Event.within, Occurrence.within, Occurrence.event_time]

/-- Whatever headers the requests from an address are sent with, and whatever others send: of those that are
counted in one bucket, fewer than twice the limit are let through in any minute, and the limit once more for
each time the cache drops the counter. -/
theorem admitted_within_limit (horder : os.Pairwise fun o p => o.time ≤ p.time) (b : Bucket) (ip : List Char)
    (start : Time) (l : List Occurrence) (hl : l.Sublist (admitted s (fun _ => none) os))
    (hfrom : ∀ o ∈ l, o.within start = true
      ∧ ∃ r, o.happening = .request r b true ∧ From s.trustedProxyDepth ip r) :
    l.length ≤ 2 * max 1 (b.limit s) - 1 + (os.countP fun o => o.culls b ip && o.within start) * max 1
    (b.limit s) := by
  have hall : ∀ o ∈ l, (o.counts s b ip && o.within start) = true := by
    intro o ho
    obtain ⟨hwithin, r, hrequest, hr⟩ := hfrom o ho
    simp [Occurrence.counts, hrequest, hr.clientIp, hwithin]
  calc l.length = l.countP fun o => o.counts s b ip && o.within start := (List.countP_eq_length.mpr hall).symm
    _ ≤ (admitted s (fun _ => none) os).countP fun o => o.counts s b ip && o.within start := hl.countP_le
    _ ≤ _ := by
      rw [admitted_counted, ← culls_counted (s := s), ← limitOf_key (s := s) b ip]
      exact passedWithin_le (inOrder_events horder) fun _ _ h => by cases h

/-- Five requests from one address, each with a header of its own. -/
def forged : List Occurrence :=
  [(0, 'a'), (59, 'b'), (60, 'c'), (61, 'd'), (62, 'e')].map fun x =>
    ⟨x.1, .request ⟨none, forwarded (some [x.2]) [['9']]⟩ .authorization true⟩

theorem admitted_within_limit_forged :
    ((admitted ⟨1, 2, 240⟩ (fun _ => none) forged).filter (·.within 59)).length ≤ 3
      ∧ ((admitted ⟨1, 2, 240⟩ (fun _ => none) forged).filter (·.within 59)).map (·.time) = [59, 60, 61] := by
  refine ⟨?_, by decide +kernel⟩
  have hall : ∀ o ∈ (admitted ⟨1, 2, 240⟩ (fun _ => none) forged).filter (·.within 59),
    o ∈ forged.filter (·.within 59) := by
    decide +kernel
  apply admitted_within_limit (s := ⟨1, 2, 240⟩) (by decide) .authorization ['9'] 59 _ List.filter_sublist
  intro o ho
  have hin := hall o ho
  rw [List.mem_filter] at hin
  refine ⟨hin.2, ?_⟩
  obtain ⟨x, -, rfl⟩ := List.mem_map.mp hin.1
  exact ⟨_, rfl, .proxied none (some [x.2]) [] rfl (by simp [IsAddress]; decide)⟩

/-- Whoever is throttled has used up the limit: as many requests from their address were counted in the
bucket in the minute before. Nobody is throttled for what others send. -/
theorem throttled_by_own_requests {o : Occurrence} {r : RequestMeta} {b : Bucket} {up : Bool}
    (horder : (os ++ [o]).Pairwise fun o p => o.time ≤ p.time) (ho : o.happening = .request r b up)
    (hthrottled : (isThrottled s (after s (fun _ => none) os) up r b o.time).2 = true) :
    up = true ∧ b.limit s ≤ os.countP fun p => p.counts s b (clientIp s.trustedProxyDepth r)
      && decide (p.time ≤ o.time ∧ o.time < p.time + windowSeconds) := by
  cases up with
  | false => simp [isThrottled] at hthrottled
  | true =>
    refine ⟨rfl, ?_⟩
    have hcounts : o.counts s b (clientIp s.trustedProxyDepth r) = true := by simp [Occurrence.counts, ho]
    have hevents := inOrder_events (s := s) horder
    rw [List.map_append] at hevents
    have hle := limit_le_of_refused windowSeconds (limitOf s) (k := key b (clientIp s.trustedProxyDepth r)) hevents
      (by rw [Occurrence.event_hits, hcounts])
      (by rw [events_after, Occurrence.event_passes hcounts, Occurrence.admitted, ho]; simp [hthrottled])
    rw [limitOf_key, List.countP_map] at hle
    refine Nat.le_trans hle (Nat.le_of_eq (List.countP_congr fun p _ => ?_))
    simp [Occurrence.event_hits, Occurrence.event_time]

theorem throttled_by_own_requests_forged :
    (2 : Nat) ≤ (forged.take 2).countP fun p => p.counts ⟨1, 2, 240⟩ .authorization ['9'] && decide
    (p.time ≤ 59 ∧ 59 < p.time + 60) := by
  have horder : List.Pairwise (fun o p : Occurrence => o.time ≤ p.time)
      (forged.take 2 ++ [⟨59, .request ⟨none, some ['9']⟩ .authorization true⟩]) := by decide
  exact (throttled_by_own_requests (s := ⟨1, 2, 240⟩) horder rfl (by decide +kernel)).2

end Throttles

end Lok
