/-
  Coppice.Proto.Bundle

  `CaCertBundle::parse` (`coppice-state/src/lib.rs`): a PEM text is a bundle
  when it is a sequence of certificate blocks, each of a certificate that may
  sign, with nothing between them.
-/

import Coppice.Proto.Convert

namespace Coppice.Proto

open Coppice.Core State

inductive InvalidCaBundle where
  | empty
  | forbiddenBlock (label : String)
  | malformed (what : String)
  | notACertificate (index : Nat)
  | notACa (index : Nat)
  deriving DecidableEq

namespace Bundle

def trim (line : List Char) : List Char :=
  ((line.dropWhile isWhiteSpace).reverse.dropWhile isWhiteSpace).reverse

def stripFront (start line : List Char) : Option (List Char) :=
  if start.isPrefixOf line then some (line.drop start.length) else none

def stripBack (tail line : List Char) : Option (List Char) :=
  (stripFront tail.reverse line.reverse).map List.reverse

/-- Where the scan of the lines is: the serials of the blocks so far, and the body of the
    open block. -/
structure Scan where
  serials : List String
  body : Option (List Char)
  deriving DecidableEq

def beginLine (scan : Scan) (rest : List Char) : Except InvalidCaBundle Scan :=
  if scan.body.isSome then .error (.malformed "BEGIN inside an open block")
  else
    match stripBack "-----".toList rest with
    | none => .error (.malformed "unterminated BEGIN marker")
    | some label =>
      if label ≠ "CERTIFICATE".toList then .error (.forbiddenBlock (String.ofList label))
      else .ok { scan with body := some [] }

/-- The label is only a claim: the block's own DER has to be a whole certificate. -/
def endLine (L : Libs) (scan : Scan) (rest : List Char) : Except InvalidCaBundle Scan :=
  match stripBack "-----".toList rest with
  | none => .error (.malformed "unterminated END marker")
  | some label =>
    match scan.body with
    | none => .error (.malformed "END without matching BEGIN")
    | some body =>
      if label ≠ "CERTIFICATE".toList then .error (.malformed "END without matching BEGIN")
      else
        match L.certificate body with
        | none => .error (.notACertificate scan.serials.length)
        | some cert =>
          if !cert.isCa then .error (.notACa scan.serials.length)
          else .ok ⟨scan.serials ++ [cert.serial], none⟩

def scanLine (L : Libs) (scan : Scan) (raw : List Char) : Except InvalidCaBundle Scan :=
  let line := trim raw
  if line = [] then .ok scan
  else
    match stripFront "-----BEGIN ".toList line with
    | some rest => beginLine scan rest
    | none =>
      match stripFront "-----END ".toList line with
      | some rest => endLine L scan rest
      | none =>
        match scan.body with
        | none => .error (.malformed "content outside a PEM block")
        | some body => .ok { scan with body := some (body ++ line) }

def scanLines (L : Libs) (scan : Scan) : List (List Char) → Except InvalidCaBundle Scan
  | [] => .ok scan
  | raw :: rest =>
    match scanLine L scan raw with
    | .error e => .error e
    | .ok scan => scanLines L scan rest

def parse (L : Libs) (pem : String) : Except InvalidCaBundle CaCertBundle :=
  match scanLines L ⟨[], none⟩ (pem.toList.splitOn '\n') with
  | .error e => .error e
  | .ok scan =>
    if scan.body.isSome then .error (.malformed "unterminated CERTIFICATE block")
    else if scan.serials = [] then .error .empty
    else .ok ⟨pem, scan.serials⟩

/-- A bundle that the parser made; nothing else makes one. -/
def OnWire (L : Libs) (bundle : CaCertBundle) : Prop := parse L bundle.pem = .ok bundle

theorem onWire_of_parse {L : Libs} {pem : String} {bundle : CaCertBundle}
    (h : parse L pem = .ok bundle) : OnWire L bundle := by
  have hpem : bundle.pem = pem := by
    unfold parse at h
    split at h
    next => cases h
    next =>
      split at h
      next => cases h
      next =>
        split at h
        next => cases h
        next => cases h; rfl
  rw [OnWire, hpem]
  exact h

end Bundle

end Coppice.Proto
