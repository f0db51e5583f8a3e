import MevRelay.Agreement
import MevRelay.Api.Decoding
import MevRelay.Api.Disclosure
import MevRelay.Api.Retrieve
import MevRelay.Api.Streams
import MevRelay.Auction
import MevRelay.Clearing
import MevRelay.Config
import MevRelay.Datastore.Coalescing
import MevRelay.Delivery
import MevRelay.Duties
import MevRelay.Erasure
import MevRelay.Freshness
import MevRelay.Gateway.Client
import MevRelay.Gateway.Service
import MevRelay.Node
import MevRelay.Provenance
import MevRelay.Sequential
import MevRelay.ShortEpochs
import MevRelay.SigningRoots
import MevRelay.Slots
import MevRelay.SseAgreement
import MevRelay.SseText
import MevRelay.Winner
