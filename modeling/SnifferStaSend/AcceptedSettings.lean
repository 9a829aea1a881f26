import SnifferStaSend.SettingsRecord
import SnifferStaSend.SockClient

/-!
# Accepted settings and the socket initialisers

`check_db_settings` tests the channel and three ports. The initialisers also need an address
that `inet_pton` takes, and exit without one; this is what decides whether accepted settings
are usable.
-/

namespace SnifferStaSend.AcceptedSettings
open CLib GetSettings SockClient ParserSafety SettingsRecord

/-- After `use_db_settings` both initialisers return, with `server` and `server_ck` set to the
address and to the two ports that the message names. -/
def Usable (inetPton : CString → Option UInt32) (msg : CString) (frame : Frame) (last : Last)
    (pool : Pool) (ep epCk : Endpoint) : Prop :=
  ∃ a pool₁ ep₁ pool₂ ep₂ ip ckPort rssiPort addr,
    useDbSettings msg frame last = .ok a ∧
    execAll inetPton .rssi (initSocketClient a.globals) (pool, ep) = .ok (pool₁, ep₁) ∧
    execAll inetPton .ck (initSocketClientCk a.globals) (pool₁, epCk) = .ok (pool₂, ep₂) ∧
    (messageFields msg)[2]? = some ip ∧ (messageFields msg)[3]? = some ckPort ∧
    (messageFields msg)[4]? = some rssiPort ∧ inetPton ip = some addr ∧
    (ep₁.server.sinFamily = afInet ∧ ep₁.server.sAddr = addr ∧
      ((ntohs ep₁.server.sinPort).toNat : ℤ) = rssiPort.atoi.toInt) ∧
    (ep₂.server.sinFamily = afInet ∧ ep₂.server.sAddr = addr ∧
      ((ntohs ep₂.server.sinPort).toNat : ℤ) = ckPort.atoi.toInt)

theorem serverAddr_port {port : Int32} (h : portInRange port = true) (addr : UInt32) :
    ((ntohs (serverAddr port addr).sinPort).toNat : ℤ) = port.toInt := by
  have hrange := portInRange_iff.mp h
  rw [serverAddr, ntohs_htons]
  exact toNat_toU16 (by omega) (by omega)

/-- Accepted settings are usable exactly when the message names both ports and a destination
that `inet_pton` accepts. -/
theorem usable_iff (inetPton : CString → Option UInt32) (msg : CString) (ckFrame frame : Frame)
    (ckLast ckLast' last : Last) (pool : Pool) (ep epCk : Endpoint)
    (hck : checkDbSettings msg ckFrame ckLast = .ok (true, ckLast')) (hfree : 2 ≤ pool.free) :
    Usable inetPton msg frame last pool ep epCk ↔
      5 ≤ (messageFields msg).length ∧
        ∃ ip, (messageFields msg)[2]? = some ip ∧ (inetPton ip).isSome := by
  constructor
  · rintro ⟨a, pool₁, ep₁, pool₂, ep₂, ip, ckPort, rssiPort, addr, _, _, _, hip, _, hrssi, haddr, _⟩
    have hlen := (List.getElem?_eq_some_iff.mp hrssi).1
    exact ⟨hlen, ip, hip, by rw [haddr]; rfl⟩
  · rintro ⟨hlen, ip, hip, hsome⟩
    obtain ⟨addr, haddr⟩ := Option.isSome_iff_exists.mp hsome
    obtain ⟨hfits, hverdict⟩ := verdict_of_checkDbSettings hck
    obtain ⟨_, hport3, hport4, _⟩ := verdict_iff.mp hverdict
    have h3lt : 3 < (messageFields msg).length := by omega
    have h4lt : 4 < (messageFields msg).length := by omega
    have h3 := List.getElem?_eq_getElem h3lt
    have h4 := List.getElem?_eq_getElem h4lt
    rw [numericField_eq_atoi (i := 3) ckFrame h3] at hport3
    rw [numericField_eq_atoi (i := 4) ckFrame h4] at hport4
    obtain ⟨dest, last', hstr, huse⟩ := useDbSettings_of_destIpField msg frame last hfits
      (destIpField_eq_some frame hip)
    have hck : (appliedGlobals msg frame dest).gCkPort = (messageFields msg)[3].atoi :=
      numericField_eq_atoi frame h3
    have hrssi : (appliedGlobals msg frame dest).gRssiPort = (messageFields msg)[4].atoi :=
      numericField_eq_atoi frame h4
    rw [← hstr] at haddr
    have hpos : 0 < pool.free := by omega
    obtain ⟨pool₁, ep₁, hinit, hserver, hfree₁, _⟩ := execAll_initSocket inetPton .rssi ep
      dest.str (appliedGlobals msg frame dest).gRssiPort hpos haddr
    have hpos₁ : 0 < pool₁.free := by omega
    obtain ⟨pool₂, ep₂, hinit₂, hserver₂, _, _⟩ := execAll_initSocket inetPton .ck epCk
      dest.str (appliedGlobals msg frame dest).gCkPort hpos₁ haddr
    refine ⟨_, pool₁, ep₁, pool₂, ep₂, ip, _, _, addr, huse, hinit, hinit₂, hip, h3, h4,
      hstr ▸ haddr, ?_, ?_⟩
    · rw [hserver, hrssi]
      exact ⟨rfl, rfl, serverAddr_port hport4 addr⟩
    · rw [hserver₂, hck]
      exact ⟨rfl, rfl, serverAddr_port hport3 addr⟩

theorem usable_dotted_quad :
    Usable dottedQuad (CString.ofString "6,x,10.0.0.7,9001,9002,9003,250") (frameOf 0) none
      lwipPool Endpoint.zero Endpoint.zero := by
  obtain ⟨last', hck⟩ := checkDbSettings_of_fits
    (CString.ofString "6,x,10.0.0.7,9001,9002,9003,250") (frameOf 0) none (by decide)
  exact (usable_iff dottedQuad _ (frameOf 0) (frameOf 0) none last' none lwipPool _ _ hck
    (by decide)).mpr ⟨by decide, CString.ofString "10.0.0.7", by decide, by decide⟩

/-- The address is not looked at by the validator. -/
theorem not_usable_host_name :
    (∃ last', checkDbSettings (CString.ofString "6,x,gateway,9001,9002,9003,250") (frameOf 0) none =
        .ok (true, last')) ∧
      ¬ Usable dottedQuad (CString.ofString "6,x,gateway,9001,9002,9003,250") (frameOf 0) none
        lwipPool Endpoint.zero Endpoint.zero := by
  constructor
  · obtain ⟨last', hck⟩ := checkDbSettings_of_fits
      (CString.ofString "6,x,gateway,9001,9002,9003,250") (frameOf 0) none (by decide)
    exact ⟨last', hck⟩
  · rintro ⟨_, _, _, _, _, ip, _, _, addr, _, _, _, hip, _, _, haddr, _⟩
    have hname : (messageFields (CString.ofString "6,x,gateway,9001,9002,9003,250"))[2]? =
        some (CString.ofString "gateway") := by decide
    have hfails : dottedQuad (CString.ofString "gateway") = none := by decide
    rw [Option.some.inj (hip.symm.trans hname), hfails] at haddr
    cases haddr

end SnifferStaSend.AcceptedSettings
