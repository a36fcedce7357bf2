import Galay.Kernel.IoVec

/-!
# HTTP error codes (`galay-http/protoc/http_error.h`)
-/

namespace Galay.Http

inductive HttpErrorCode
  | kNoError
  | kIncomplete
  | kConnectionClose
  | kTcpRecvError
  | kTcpSendError
  | kRequestTimeOut
  | kContentLengthNotContained
  | kContentLengthConvertError
  | kHeaderInComplete
  | kBodyInComplete
  | kHeaderTooLong
  | kUriTooLong
  | kChunkHasError
  | kHttpCodeInvalid
  | kHeaderPairExist
  | kHeaderPairNotExist
  | kBadRequest
  | kUrlInvalid
  | kPortInvalid
  | kMethodNotAllow
  | kVersionNotSupport
  | kRequestEntityTooLarge
  | kUriEncodeError
  | kContentTypeInvalid
  | kInvalidChunkFormat
  | kInvalidChunkLength
  | kBodyLengthNotMatch
  | kRecvTimeOut
  | kSendTimeOut
  | kNotFound
  | kNotImplemented
  | kUpgradeFailed
  | kUnknownError
  | kHeaderTooLarge
  | kRecvError
  | kSendError
  | kCloseError
  | kInternalError
  | kTcpConnectError
  | kChunkSizeConvertError
  deriving DecidableEq, Repr

structure HttpError where
  code : HttpErrorCode
  extraMsg : String := ""
  deriving DecidableEq, Repr

/-- The largest `size_t`. -/
def sizeMax : Nat := 2 ^ 64 - 1

def CR : UInt8 := 13
def LF : UInt8 := 10

end Galay.Http
