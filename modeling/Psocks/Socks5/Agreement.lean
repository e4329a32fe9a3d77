import Psocks.Lib.Dialogue
import Psocks.Socks5.ClientCourse
import Psocks.Socks5.ServerCourse

namespace Psocks.Socks5
open Program Dialogue SearchTree
variable {rbtree : Balanced HevSocks5User} {client : HevSocks5Client} {server : HevSocks5Server rbtree} {target : Target}

-- No credentials on either side, or those of a user of the authenticator.
def Matched (client : HevSocks5Client) (server : HevSocks5Server rbtree) : Prop :=
  client.auth = none ∧ server.auth = none ∨ ∃ user pass auth, client.auth = some (user,pass) ∧ server.auth = some auth ∧
    (0 < user.bytes.length ∧ user.bytes.length < 256) ∧ (0 < pass.bytes.length ∧ pass.bytes.length < 256) ∧
      ⟨user.bytes,pass.bytes⟩ ∈ auth.users

-- The upstream address is that of the target.
def Heads (client : HevSocks5Client) (target : Target) : Prop :=
  target.Fits ∧ ∃ behind, client.upstream.addr.bytes = target.bytes++behind

-- A party that sends data of its own behind a handshake, by what that came to.
def goesOn (p : Prog Query Answer α) (data : α → List UInt8) : Prog Query Answer α := do
  let a ← p
  let _ ← send (data a)
  pure a

theorem goes_on_does {p : Prog Query Answer α} {acts : List (Act Query)} {a : α} (does : Does oracle turn p acts a) (data : α → List UInt8) :
    Does oracle turn (goesOn p data) (acts++[sentWhole (data a)]) a := by
  unfold goesOn
  refine does_bind does ?_
  exact does_send .done

theorem target_length (fits : target.Fits) (behind : List UInt8) :
    upstreamLength (target.bytes++behind) = some target.bytes.length := by
  cases target with
  | ipv4 addr port => simp [upstreamLength,Target.bytes]
  | ipv6 addr port => simp [upstreamLength,Target.bytes,ipv6_not_ipv4]
  | name host port =>
    have count : (UInt8.ofNat host.bytes.length).toNat = host.bytes.length := UInt8.toNat_ofNat_of_lt' fits.2
    simp [upstreamLength,Target.bytes,name_not_ipv4,name_not_ipv6,count]
    omega

theorem heads_request (heads : Heads client target) (type : requestCmd client.type = some cmd) :
    client.request = [version5,cmd,0]++target.bytes := by
  obtain ⟨fits,behind,layout⟩ := heads
  unfold HevSocks5Client.request
  rw [type,layout,target_length fits]
  simp only [List.take_left]

theorem greeting_offers (client : HevSocks5Client) : Greeting client.method client.greeting := ⟨1,[client.method],rfl,rfl,by simp⟩

theorem creds_negotiation {user pass : CString} {users : List HevSocks5User} (ufit : 0 < user.bytes.length ∧ user.bytes.length < 256)
    (pfit : 0 < pass.bytes.length ∧ pass.bytes.length < 256) (member : ⟨user.bytes,pass.bytes⟩ ∈ users) :
    Negotiation users (authCreds user pass) := by
  have layout : authCreds user pass = authVersion1::UInt8.ofNat user.bytes.length::
      (user.bytes++UInt8.ofNat pass.bytes.length::pass.bytes) := by
    simp [authCreds,UInt8.toNat_ofNat_of_lt' ufit.2,UInt8.toNat_ofNat_of_lt' pfit.2]
  rw [layout]
  exact encoded_negotiation ufit pfit member

theorem received_hears {acts : List (Act ServerQuery)} (received : ∀ act ∈ acts, act.Received) (hears : heard acts = data) :
    Hears acts [(sentWhole data : Act ClientQuery)] [] :=
  ⟨by rw [hears,wire_sent,wire_nil],received_silent received,rfl⟩

-- The authentication of the server, against what the client says for it.
theorem auth_course (matched : Matched client server) (oracle : Nat → (q : ServerQuery) → ServerAnswer q) :
    ∃ greeted user judged, Does oracle 0 (hevSocks5ServerAuth server) (greeted++([.put [version5,client.method] 2]++(user++judged))) 0 ∧
      asked (greeted++([.put [version5,client.method] 2]++(user++judged))) = [] ∧
      Hears greeted [(sentWhole client.greeting : Act ClientQuery)] [] ∧ Hears user client.credsSent [] ∧ Hears client.verdict judged [] := by
  have offers := greeting_offers client
  rcases matched with ⟨bare,unset⟩ | ⟨user,pass,auth,creds,set,ufit,pfit,member⟩
  · obtain ⟨method,silent,unjudged⟩ := bare_client bare
    rw [method] at offers ⊢
    obtain ⟨reads,does,hears,received⟩ := auth_open_does unset oracle offers
    refine ⟨reads,[],[],does,?_,received_hears received hears,?_,?_⟩
    · simp [(received_quiet received).1]
    · rw [silent]
      exact ⟨rfl,rfl,rfl⟩
    · rw [unjudged]
      exact ⟨rfl,rfl,rfl⟩
  · obtain ⟨method,told,judged⟩ := keyed_client creds
    rw [method] at offers ⊢
    obtain ⟨reads,reads',does,⟨hears,received⟩,hears',received'⟩ :=
      auth_user_does set oracle offers (creds_negotiation ufit pfit member)
    refine ⟨reads,reads',[.put [authVersion1,0] 2],does,?_,received_hears received hears,?_,?_⟩
    · simp [(received_quiet received).1,(received_quiet received').1]
    · rw [told]
      exact received_hears received' hears'
    · rw [judged]
      exact ⟨rfl,rfl,rfl⟩

-- The parts of a handshake of either mode, by what they answer: the greeting, the method,
-- the credentials, the verdict, the request and the reply.
structure Exchange (g m c v q r : List (Act ClientQuery)) (greeted chosen user judged asks replied : List (Act ServerQuery))
    (rest : List UInt8) : Prop where
  greeting : Hears greeted g []
  method : Hears m chosen []
  creds : Hears user c []
  verdict : Hears v judged []
  request : Hears asks q []
  reply : Hears r replied rest

theorem standard_meets (exchange : Exchange g m c v q r greeted chosen user judged asks replied rest) (deaf : heard l = [])
    (deaf' : heard l' = []) : Meets (g++(m++(c++(v++(q++(r++l)))))) [] (greeted++(chosen++(user++(judged++(asks++(replied++l'))))))
      [] (rest++wire l') (wire l) := by
  obtain ⟨greeting,method,creds,verdict,request,reply⟩ := exchange
  exact left_tells greeting (right_tells method (left_tells creds (right_tells verdict (left_tells request
    (right_tells reply (both_tell deaf deaf'))))))

-- The replies are there before the client takes the first of them.
theorem pipeline_meets (exchange : Exchange g m c v q r greeted chosen user judged asks replied rest) (deaf : heard l = [])
    (deaf' : heard l' = []) : Meets (g++(c++(q++(m++(v++(r++l)))))) [] (greeted++(chosen++(user++(judged++(asks++(replied++l'))))))
      [] (rest++wire l') (wire l) := by
  obtain ⟨greeting,method,creds,verdict,request,reply⟩ := exchange
  refine left_tells greeting (meets_right (by rw [method.deaf,List.nil_append]) ?_)
  refine left_tells creds (meets_right (by rw [verdict.deaf,List.nil_append]) ?_)
  refine left_tells request (meets_right (by rw [reply.deaf,List.nil_append]) ?_)
  have stream : []++wire chosen++wire judged++wire replied = heard m++(heard v++(heard r++rest)) := by
    rw [method.told,verdict.told,reply.told]
    simp
  rw [stream]
  refine .left (.left (.left ?_))
  rw [method.quiet,verdict.quiet,reply.quiet]
  exact both_tell deaf deaf'

theorem client_course (pipeline : Bool)
    (exchange : Exchange [sentWhole client.greeting] [.got 2 [version5,client.method]] client.credsSent client.verdict
      [sentWhole client.request] acts greeted chosen user judged asks replied rest)
    (ends : ∀ turn, Does answers turn (do
      let res ← hevSocks5ClientReadResponse
      pure (if res < 0 then -1 else 0)) acts (res : Int))
    (l : List (Act ClientQuery)) (l' : List (Act ServerQuery)) (deaf : heard l = []) (deaf' : heard l' = []) :
    ∃ xs, Does answers 0 (hevSocks5ClientHandshake client pipeline) xs res ∧
      Meets (xs++l) [] (greeted++(chosen++(user++(judged++(asks++(replied++l')))))) [] (rest++wire l') (wire l) := by
  cases pipeline with
  | false =>
    refine ⟨_,standard_does client ends,?_⟩
    simp only [List.append_assoc]
    exact standard_meets exchange deaf deaf'
  | true =>
    refine ⟨_,pipeline_does client ends,?_⟩
    simp only [List.append_assoc]
    exact pipeline_meets exchange deaf deaf'

-- How a handshake ends: with one verdict on both sides, the server's request the client's,
-- no byte of what the client sends behind its handshake taken by the server's, and none of
-- what the server sends behind it taken by the client's, when it succeeds.
structure Agreed (oracle : Nat → (q : ServerQuery) → ServerAnswer q) (server : HevSocks5Server rbtree) (stack : Request)
    (cmd : UInt8) (target : Target) (later : Int → List UInt8) (more : Handshake rbtree → List UInt8)
    (s : Pair ClientQuery (fun _ => Int) Int ServerQuery ServerAnswer (Handshake rbtree)) (res : Int) (out : Handshake rbtree) : Prop where
  left : s.left.prog = .done res
  right : s.right.prog = .done out
  answered : res = 0 ↔ out.rep = resRepSucc
  served : out.res = 0 ↔ out.rep = resRepSucc
  untaken : s.right.inbox = later res
  unheard : res = 0 → s.left.inbox = more out
  decoded : Decoded oracle cmd target stack server.addrFamily out.request s.right.log

theorem handshake_agrees (client : HevSocks5Client) (server : HevSocks5Server rbtree) (pipeline : Bool) (stack : Request)
    (target : Target) (later : Int → List UInt8) (more : Handshake rbtree → List UInt8)
    (oracle : Nat → (q : ServerQuery) → ServerAnswer q) (answers : Nat → ClientQuery → Int)
    (accepts : ∀ turn q, 0 ≤ answers turn q) (matched : Matched client server) (heads : Heads client target)
    (type : requestCmd client.type = some cmd)
    (run : Runs.exec (step answers oracle) (opening (goesOn (hevSocks5ClientHandshake client pipeline) later)
      (goesOn (hevSocks5ServerHandshake server stack) more)) events = some s) :
    (∃ rest next res out, Runs.exec (step answers oracle) s rest = some next ∧
      Agreed oracle server stack cmd target later more next res out) ∧
    (Runs.Stuck (step answers oracle) s → ∃ res out, Agreed oracle server stack cmd target later more s res out) := by
  obtain ⟨greeted,user,judged,passed,silent,greeting,creds,verdict⟩ := auth_course matched oracle
  obtain ⟨asks,addr,out,serves,hears,quiet,served,decoded⟩ := server_does passed silent heads.1 cmd stack
  obtain ⟨acts,rest,res,ends,replied,mute,succeeds,whole⟩ := response_does out.rep addr accepts
  have request : Hears asks [(sentWhole client.request : Act ClientQuery)] [] :=
    ⟨by rw [hears,heads_request heads type]; simp,quiet,rfl⟩
  have reply : Hears acts [(sentWhole (response out.rep addr) : Act ServerQuery)] rest := ⟨by simp [replied],mute,rfl⟩
  have exchange : Exchange [sentWhole client.greeting] [.got 2 [version5,client.method]] client.credsSent client.verdict
      [sentWhole client.request] acts greeted [.put [version5,client.method] 2] user judged asks
      [sentWhole (response out.rep addr)] rest := ⟨greeting,⟨rfl,rfl,rfl⟩,creds,verdict,request,reply⟩
  have right := goes_on_does serves more
  obtain ⟨xs,left,meets⟩ := client_course pipeline exchange ends [sentWhole (later res)] [sentWhole (more out)] rfl rfl
  simp only [wire_sent,wire_nil,List.append_nil] at meets
  have parts : greeted++([.put [version5,client.method] 2]++(user++judged))++
      (asks++[.put (response out.rep addr) (response out.rep addr).length])++[sentWhole (more out)] =
      greeted++([.put [version5,client.method] 2]++(user++(judged++(asks++([sentWhole (response out.rep addr)]++[sentWhole (more out)]))))) := by
    simp [sentWhole]
  rw [parts] at right
  obtain ⟨completes,stuck⟩ := meets_ends meets (goes_on_does left later) right run
  have agreed : Agreed oracle server stack cmd target later more (ending res (xs++[sentWhole (later res)]) (rest++more out) out
      (greeted++([.put [version5,client.method] 2]++(user++(judged++(asks++([sentWhole (response out.rep addr)]++[sentWhole (more out)])))))) (later res))
      res out := by
    refine ⟨rfl,rfl,succeeds,served,rfl,fun zero => ?_,?_⟩
    · rw [ending,whole zero,List.nil_append]
    · have log : asked (greeted++([.put [version5,client.method] 2]++(user++(judged++(asks++
          ([sentWhole (response out.rep addr)]++[sentWhole (more out)])))))) = asked asks := by
        simp only [asked_append,List.append_eq_nil_iff] at silent
        simp [silent]
      rw [ending,log]
      exact decoded
  refine ⟨?_,fun over_ => ?_⟩
  · obtain ⟨path,went⟩ := completes
    exact ⟨path,_,res,out,went,agreed⟩
  · rw [stuck over_]
    exact ⟨res,out,agreed⟩

-- A host that lets user "u" of password "p" in.
def post : HevSocks5Server Balanced.plain := ⟨4,.none,.unspec,(-1,-1),some lodge⟩

-- `member` goes to 1.2.3.4:80 there and has sent its first byte; both have data to send
-- behind the handshake.
theorem handshake_agrees_begun : ∃ s rest next res out,
    Runs.exec (step (fun _ _ => 0) obliging) (opening (goesOn (hevSocks5ClientHandshake member true) fun _ => [71])
      (goesOn (hevSocks5ServerHandshake post ⟨0,0,⟨0,.replicate 2 0,.replicate 16 0⟩⟩) fun _ => [72])) [.left] = some s ∧
    Runs.exec (step (fun _ _ => 0) obliging) s rest = some next ∧
    Agreed obliging post ⟨0,0,⟨0,.replicate 2 0,.replicate 16 0⟩⟩ reqCmdConnect (.ipv4 ⟨#[1,2,3,4],rfl⟩ ⟨#[0,80],rfl⟩)
      (fun _ => [71]) (fun _ => [72]) next res out := by
  have matched : Matched member post :=
    .inr ⟨⟨[117],by decide⟩,⟨[112],by decide⟩,lodge,rfl,rfl,by decide,by decide,by decide⟩
  have heads : Heads member (.ipv4 ⟨#[1,2,3,4],rfl⟩ ⟨#[0,80],rfl⟩) := ⟨trivial,_,from_ipv4_bytes⟩
  obtain ⟨rest,next,res,out,went,agreed⟩ := (handshake_agrees member post true ⟨0,0,⟨0,.replicate 2 0,.replicate 16 0⟩⟩ _ (fun _ => [71])
    (fun _ => [72]) obliging (fun _ _ => 0) (fun _ _ => Int.le_refl 0) matched heads rfl
    (show Runs.exec _ _ [.left] = some _ from rfl)).1
  exact ⟨_,rest,next,res,out,rfl,went,agreed⟩

end Psocks.Socks5
